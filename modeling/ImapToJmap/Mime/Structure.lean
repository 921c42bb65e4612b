import ImapToJmap.Mime.Message
import ImapToJmap.Run.Loop

/-!
# Body structures

`body_structure` of `commands/fetch.rs` goes over the parts of a message with a stack of its own.
On the stack are the parts that are not complete yet, each with what is left of its children, and
with the message that it is in if its last child was a message.

`Tree` are the finite trees of parts, and `Tree.bodyPart` is the structure of one by recursion, with
the message that holds the parts as its argument.  `bodyStructure_eq` is that the loop returns it: a
child on the list costs the rounds of its tree and leaves the stack and the message as they were
(`steps_tree`).
-/

namespace ImapToJmap.Mime

open Fetch Loop

/-! ## The loop -/

/-- The ways to panic, the debug assertions included. -/
inductive Panic where
  | /-- `message.parts[*part_id]` -/
    index
  | /-- `Cannot add a part to a non-multipart body part` -/
    addPart
  | /-- `Cannot set envelope on a non-message body part` -/
    setEnvelope
  | /-- `root_part.unwrap()` -/
    unwrap

/-- `BodyPart::add_part` -/
def addPart (part : BodyPart) : BodyPart → Except Panic BodyPart
  | .multipart bodyParts bodySubtype bodyParameters ext =>
      .ok (.multipart (bodyParts ++ [part]) bodySubtype bodyParameters ext)
  | .message fields envelope _ bodySizeLines bodyMd5 ext =>
      .ok (.message fields envelope (some part) bodySizeLines bodyMd5 ext)
  | _ => .error .addPart

/-- `BodyPart::set_envelope` -/
def setEnvelope (envelope : Envelope) : BodyPart → Except Panic BodyPart
  | .message fields _ body bodySizeLines bodyMd5 ext =>
      .ok (.message fields (some envelope) body bodySizeLines bodyMd5 ext)
  | _ => .error .setEnvelope

/-- A part that is not complete yet. -/
structure Frame where
  rootPart : BodyPart
  parts : List ℕ
  message : Option Message

/-- The variables of `body_structure`. -/
structure StructureLoop where
  stack : List Frame
  parts : List ℕ
  message : Message
  rootPart : Option BodyPart

section

variable (md5 : Bytes → String) (isExtended : Bool)

namespace StructureLoop

/-- The stack under a new part. -/
def push (s : StructureLoop) (parts : List ℕ) (message : Option Message) : List Frame :=
  match s.rootPart with
  | some rootPart => ⟨rootPart, parts, message⟩ :: s.stack
  | none => s.stack

/-- The next part of the list, or the part on the stack when the list is empty. -/
def step (s : StructureLoop) : Except Panic (StructureLoop ⊕ BodyPart) :=
  match s.parts with
  | id :: parts =>
      match s.message.parts[id]? with
      | none => .error .index
      | some part =>
          let bodyPart := s.message.asBodyPart md5 isExtended part
          match part.body with
          | .message nested => do
              let bodyPart ← setEnvelope nested.envelope bodyPart
              .ok (.inl ⟨s.push parts (some s.message), [0], nested, some bodyPart⟩)
          | .multipart subparts => .ok (.inl ⟨s.push parts none, subparts, s.message,
              some bodyPart⟩)
          | _ =>
              match s.rootPart with
              | some rootPart => do
                  let rootPart ← addPart bodyPart rootPart
                  .ok (.inl ⟨s.stack, parts, s.message, some rootPart⟩)
              | none => .ok (.inr bodyPart)
  | [] =>
      match s.rootPart, s.stack with
      | none, _ => .error .unwrap
      | some rootPart, [] => .ok (.inr rootPart)
      | some rootPart, frame :: stack => do
          let rootPart ← addPart rootPart frame.rootPart
          .ok (.inl ⟨stack, frame.parts, frame.message.getD s.message, some rootPart⟩)

end StructureLoop

/-- `Message::body_structure`, for as many rounds of the loop as there is fuel for. -/
def Message.bodyStructure (message : Message) (fuel : ℕ) : Except Panic (Option BodyPart) :=
  run (StructureLoop.step md5 isExtended) fuel ⟨[], [0], message, none⟩

/-! ## Trees of parts -/

/-- A finite tree of parts. -/
inductive Tree where
  | leaf (part : MessagePart Message)
  | multipart (part : MessagePart Message) (children : List Tree)
  | message (part : MessagePart Message) (nested : Message) (root : Tree)

/-- The part has no parts of its own. -/
def MessagePart.IsLeaf {μ : Type} (part : MessagePart μ) : Prop :=
  part.isMessage = false ∧ part.getSubParts = none

mutual

/-- The tree at an index of a message. -/
inductive IsTree : Message → ℕ → Tree → Prop
  | leaf {message : Message} {id : ℕ} {part : MessagePart Message} :
      message.parts[id]? = some part → part.IsLeaf → IsTree message id (.leaf part)
  | multipart {message : Message} {id : ℕ} {part : MessagePart Message} {ids : List ℕ}
      {children : List Tree} : message.parts[id]? = some part → part.body = .multipart ids →
      AreTrees message ids children → IsTree message id (.multipart part children)
  | message {message : Message} {id : ℕ} {part : MessagePart Message} {nested : Message}
    {root : Tree} :
      message.parts[id]? = some part → part.body = .message nested → IsTree nested 0 root →
      IsTree message id (.message part nested root)

inductive AreTrees : Message → List ℕ → List Tree → Prop
  | nil {message : Message} : AreTrees message [] []
  | cons {message : Message} {id : ℕ} {ids : List ℕ} {tree : Tree} {trees : List Tree} :
      IsTree message id tree → AreTrees message ids trees →
        AreTrees message (id :: ids) (tree :: trees)

end

/-- A multipart with its children. -/
def withParts (bodyParts : List BodyPart) : BodyPart → BodyPart
  | .multipart _ bodySubtype bodyParameters ext =>
      .multipart bodyParts bodySubtype bodyParameters ext
  | part => part

/-- A message part with the envelope and the root of what it holds. -/
def withBody (envelope : Envelope) (body : BodyPart) : BodyPart → BodyPart
  | .message fields _ _ bodySizeLines bodyMd5 ext =>
      .message fields (some envelope) (some body) bodySizeLines bodyMd5 ext
  | part => part

namespace Tree

mutual

/-- The structure of a tree of parts of the message. -/
def bodyPart (message : Message) : Tree → BodyPart
  | leaf part => message.asBodyPart md5 isExtended part
  | multipart part children =>
      withParts (bodyParts message children) (message.asBodyPart md5 isExtended part)
  | .message part nested root =>
      withBody nested.envelope (root.bodyPart nested) (message.asBodyPart md5 isExtended part)

def bodyParts (message : Message) : List Tree → List BodyPart
  | [] => []
  | tree :: trees => tree.bodyPart message :: bodyParts message trees

end

mutual

/-- The rounds that a tree takes. -/
def rounds : Tree → ℕ
  | leaf _ => 1
  | multipart _ children => 1 + allRounds children + 1
  | .message _ _ root => 1 + root.rounds + 1

def allRounds : List Tree → ℕ
  | [] => 0
  | tree :: trees => tree.rounds + allRounds trees

end

end Tree

/-! ## The rounds of a tree -/

variable {md5 isExtended}

section Rounds

variable {message : Message} {id : ℕ} {part : MessagePart Message} {stack : List Frame}
  {rest : List ℕ} {rootPart rootPart' : BodyPart}

/-- A part without parts of its own is added at once, or returned if it is all there is. -/
theorem step_leaf (hpart : message.parts[id]? = some part) (hleaf : part.IsLeaf)
    (root : Option BodyPart) :
    StructureLoop.step md5 isExtended ⟨stack, id :: rest, message, root⟩ =
      match root with
      | some rootPart => do
          let rootPart ← addPart (message.asBodyPart md5 isExtended part) rootPart
          .ok (.inl ⟨stack, rest, message, some rootPart⟩)
      | none => .ok (.inr (message.asBodyPart md5 isExtended part)) := by
  obtain ⟨hmessage, hparts⟩ := hleaf
  rw [StructureLoop.step]
  simp only [hpart]
  split
  · rename_i hbody
    rw [MessagePart.isMessage, hbody] at hmessage
    cases hmessage
  · rename_i hbody
    rw [MessagePart.getSubParts, hbody] at hparts
    cases hparts
  · rfl

theorem step_multipart {ids : List ℕ} {root : Option BodyPart}
    (hpart : message.parts[id]? = some part)
    (hbody : part.body = .multipart ids) :
    StructureLoop.step md5 isExtended ⟨stack, id :: rest, message, root⟩ =
      .ok (.inl ⟨StructureLoop.push ⟨stack, id :: rest, message, root⟩ rest none, ids, message,
        some (message.asBodyPart md5 isExtended part)⟩) := by
  rw [StructureLoop.step]
  simp only [hpart, hbody]

theorem asBodyPart_multipart {ids : List ℕ} (hbody : part.body = .multipart ids) :
    ∃ subtype params ext,
      message.asBodyPart md5 isExtended part = .multipart [] subtype params ext := by
  simp only [Message.asBodyPart, hbody]
  exact ⟨_, _, _, rfl⟩

theorem asBodyPart_message {nested : Message} (hbody : part.body = .message nested) :
    ∃ fields lines md ext,
      message.asBodyPart md5 isExtended part = .message fields none none lines md ext := by
  simp only [Message.asBodyPart, hbody]
  exact ⟨_, _, _, _, rfl⟩

theorem step_message {nested : Message} {root : Option BodyPart} {bodyPart : BodyPart}
    (hpart : message.parts[id]? = some part) (hbody : part.body = .message nested)
    (hset : setEnvelope nested.envelope (message.asBodyPart md5 isExtended part) = .ok bodyPart) :
    StructureLoop.step md5 isExtended ⟨stack, id :: rest, message, root⟩ =
      .ok (.inl ⟨StructureLoop.push ⟨stack, id :: rest, message, root⟩ rest (some message),
        [0], nested,
        some bodyPart⟩) := by
  rw [StructureLoop.step]
  simp only [hpart, hbody, hset]
  rfl

/-- A part that is complete is added to the one on the stack, and its message is left. -/
theorem step_pop {bodyPart : BodyPart} {outer : Option Message}
    (hadd : addPart bodyPart rootPart = .ok rootPart') :
    StructureLoop.step md5 isExtended
        ⟨⟨rootPart, rest, outer⟩ :: stack, [], message, some bodyPart⟩ =
      .ok (.inl ⟨stack, rest, outer.getD message, some rootPart'⟩) := by
  rw [StructureLoop.step]
  simp only [hadd]
  rfl

end Rounds

mutual

/-- **A child on the list**: its structure is added, and the stack and the message are what they
were. By induction on the tree; what a message part has put on the stack brings its message back. -/
theorem steps_tree {message : Message} {id : ℕ} {tree : Tree} (h : IsTree message id tree)
    {stack : List Frame} {rest : List ℕ} {rootPart rootPart' : BodyPart}
    (hadd : addPart (tree.bodyPart md5 isExtended message) rootPart = .ok rootPart') :
    Steps (StructureLoop.step md5 isExtended) tree.rounds
      ⟨stack, id :: rest, message, some rootPart⟩
      ⟨stack, rest, message, some rootPart'⟩ := by
  cases h with
  | @leaf _ _ part hpart hleaf =>
      have hadded : StructureLoop.step md5 isExtended ⟨stack, id :: rest, message, some rootPart⟩ =
          .ok (.inl ⟨stack, rest, message, some rootPart'⟩) := by
        rw [Tree.bodyPart] at hadd
        rw [step_leaf hpart hleaf]
        show (addPart (message.asBodyPart md5 isExtended part) rootPart >>= _) = _
        rw [hadd]
        rfl
      exact .one hadded
  | @multipart _ _ part ids children hpart hbody hchildren =>
      obtain ⟨subtype, params, ext, has⟩ : ∃ subtype params ext,
        message.asBodyPart md5 isExtended part = .multipart [] subtype params ext :=
          asBodyPart_multipart hbody
      rw [Tree.bodyPart, has] at hadd
      have hopen : StructureLoop.step md5 isExtended ⟨stack, id :: rest, message, some rootPart⟩ =
          .ok (.inl ⟨⟨rootPart, rest, none⟩ :: stack, ids, message,
            some (.multipart [] subtype params ext)⟩) := by
        rw [step_multipart hpart hbody, has]
        rfl
      have hparts : Steps (StructureLoop.step md5 isExtended) (Tree.allRounds children)
          ⟨⟨rootPart, rest, none⟩ :: stack, ids, message, some (.multipart [] subtype params ext)⟩
          ⟨⟨rootPart, rest, none⟩ :: stack, [], message, some
            (.multipart (Tree.bodyParts md5 isExtended message children) subtype params ext)⟩ :=
        steps_trees hchildren
      exact ((Steps.one hopen).trans hparts).trans (.one (step_pop hadd))
  | @message _ _ part nested root hpart hbody hroot =>
      obtain ⟨fields, lines, md, ext, has⟩ : ∃ fields lines md ext,
        message.asBodyPart md5 isExtended part = .message fields none none lines md ext :=
          asBodyPart_message hbody
      rw [Tree.bodyPart, has] at hadd
      have hopen : StructureLoop.step md5 isExtended ⟨stack, id :: rest, message, some rootPart⟩ =
          .ok (.inl ⟨⟨rootPart, rest, some message⟩ :: stack, [0], nested,
            some (.message fields (some nested.envelope) none lines md ext)⟩) := by
        rw [step_message hpart hbody (by rw [has]; rfl)]
        rfl
      have hbodyPart : Steps (StructureLoop.step md5 isExtended) root.rounds
          ⟨⟨rootPart, rest, some message⟩ :: stack, [0], nested,
            some (.message fields (some nested.envelope) none lines md ext)⟩
          ⟨⟨rootPart, rest, some message⟩ :: stack, [], nested, some (.message fields
            (some nested.envelope) (some (root.bodyPart md5 isExtended nested)) lines md ext)⟩ :=
        steps_tree hroot rfl
      exact ((Steps.one hopen).trans hbodyPart).trans (.one (step_pop hadd))

/-- The children of a multipart, one after the other. -/
theorem steps_trees {message : Message} {ids : List ℕ} {trees : List Tree}
    (h : AreTrees message ids trees) {stack : List Frame} {bodyParts : List BodyPart}
    {subtype : String}
    {params : Option (List (String × String))} {ext : BodyPartExtension} :
    Steps (StructureLoop.step md5 isExtended) (Tree.allRounds trees)
      ⟨stack, ids, message, some (.multipart bodyParts subtype params ext)⟩
      ⟨stack, [], message, some
        (.multipart (bodyParts ++ Tree.bodyParts md5 isExtended message trees) subtype
          params ext)⟩ := by
  cases h with
  | nil =>
      rw [Tree.bodyParts, List.append_nil]
      exact .refl _
  | @cons _ id ids tree trees htree htrees =>
      have hfirst : Steps (StructureLoop.step md5 isExtended) tree.rounds
          ⟨stack, id :: ids, message, some (.multipart bodyParts subtype params ext)⟩
          ⟨stack, ids, message, some
            (.multipart (bodyParts ++ [tree.bodyPart md5 isExtended message]) subtype
              params ext)⟩ :=
        steps_tree htree rfl
      rw [Tree.bodyParts, List.append_cons]
      exact hfirst.trans (steps_trees htrees)

end

/-- **The structure of a message**: with enough fuel the loop comes to its end, without a panic, and
returns what the recursion over the tree of the parts gives. -/
theorem bodyStructure_eq {message : Message} {tree : Tree} (h : IsTree message 0 tree) {fuel : ℕ}
    (hfuel : tree.rounds ≤ fuel) :
    message.bodyStructure md5 isExtended fuel =
      .ok (some (tree.bodyPart md5 isExtended message)) := by
  cases h with
  | leaf hpart hleaf => exact run_of_steps (.refl _) (step_leaf hpart hleaf none) hfuel
  | @multipart _ _ part ids children hpart hbody hchildren =>
      obtain ⟨subtype, params, ext, has⟩ : ∃ subtype params ext,
        message.asBodyPart md5 isExtended part = .multipart [] subtype params ext :=
          asBodyPart_multipart hbody
      have hopen : StructureLoop.step md5 isExtended ⟨[], [0], message, none⟩ =
          .ok (.inl ⟨[], ids, message, some (.multipart [] subtype params ext)⟩) := by
        rw [step_multipart hpart hbody, has]
        rfl
      have hparts : Steps (StructureLoop.step md5 isExtended) (Tree.allRounds children)
          ⟨[], ids, message, some (.multipart [] subtype params ext)⟩
          ⟨[], [], message, some
            (.multipart (Tree.bodyParts md5 isExtended message children) subtype params ext)⟩ :=
        steps_trees hchildren
      rw [Tree.bodyPart, has]
      exact run_of_steps ((Steps.one hopen).trans hparts) rfl hfuel
  | @message _ _ part nested root hpart hbody hroot =>
      obtain ⟨fields, lines, md, ext, has⟩ : ∃ fields lines md ext,
        message.asBodyPart md5 isExtended part = .message fields none none lines md ext :=
          asBodyPart_message hbody
      have hopen : StructureLoop.step md5 isExtended ⟨[], [0], message, none⟩ =
          .ok (.inl ⟨[], [0], nested,
            some (.message fields (some nested.envelope) none lines md ext)⟩) := by
        rw [step_message hpart hbody (by rw [has]; rfl)]
        rfl
      have hbodyPart : Steps (StructureLoop.step md5 isExtended) root.rounds
          ⟨[], [0], nested, some (.message fields (some nested.envelope) none lines md ext)⟩
          ⟨[], [], nested, some (.message fields (some nested.envelope)
            (some (root.bodyPart md5 isExtended nested)) lines md ext)⟩ :=
        steps_tree hroot rfl
      rw [Tree.bodyPart, has]
      exact run_of_steps ((Steps.one hopen).trans hbodyPart) rfl hfuel

/-- A part of a message that is forwarded, or of the message around it. -/
def plainPart (body : PartType Message) : MessagePart Message where
  headers := []
  values := ⟨none, none, none, none, none, none, none⟩
  isEncodingProblem := false
  body := body
  offsetHeader := 0
  offsetBody := 0
  offsetEnd := 0

/-- No header that an envelope has. -/
def noHeaders : EnvelopeHeaders := ⟨none, none, [], [], [], [], [], [], none, none⟩

/-- A message of two parts. -/
def attached : Message :=
  .mk [] noHeaders (plainPart (.multipart [2, 1])) [plainPart (.text "a"), plainPart (.binary [0])]

/-- A message that holds the other one between two of its parts. -/
def forwarding : Message :=
  .mk [] noHeaders (plainPart (.multipart [1, 2, 3]))
    [plainPart (.text "b"), plainPart (.message attached), plainPart (.html "c")]

/-- The children of the outer message are found again behind those of the inner one. -/
theorem bodyStructure_forwarding :
    forwarding.bodyStructure (fun _ ↦ "") false 10 = .ok (some
      ((Tree.multipart (plainPart (.multipart [1, 2, 3])) [.leaf (plainPart (.text "b")),
        .message (plainPart (.message attached)) attached
          (.multipart (plainPart (.multipart [2, 1]))
            [.leaf (plainPart (.binary [0])), .leaf (plainPart (.text "a"))]),
        .leaf (plainPart (.html "c"))]).bodyPart (fun _ ↦ "") false forwarding)) := by
  refine bodyStructure_eq ?_ (by decide)
  have hinner : IsTree attached 0 (.multipart (plainPart (.multipart [2, 1]))
      [.leaf (plainPart (.binary [0])), .leaf (plainPart (.text "a"))]) :=
    .multipart rfl rfl (.cons (.leaf rfl ⟨rfl, rfl⟩) (.cons (.leaf rfl ⟨rfl, rfl⟩) .nil))
  exact .multipart rfl rfl (.cons (.leaf rfl ⟨rfl, rfl⟩)
    (.cons (.message rfl rfl hinner) (.cons (.leaf rfl ⟨rfl, rfl⟩) .nil)))

end

end ImapToJmap.Mime
