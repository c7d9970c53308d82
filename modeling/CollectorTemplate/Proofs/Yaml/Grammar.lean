/-
What the grammar does with its tokens.

Each move tells one event.  It takes tokens, or it comes nearer to one that does; and the stack
always knows how many collections are open.

* `Expectation.depth` : how many collections are open where something is expected;
* `Expectation.slack` : how many moves may come before one that takes a token;
* `Grammar.Sound` : what is true of every move, which `Grammar.move_sound` proves case by case;
* `Grammar.run_spec` : up to the end of a text the limit is never reached, the tokens are never used
  up, and the events close what they open.
-/
import CollectorTemplate.Yaml.Event
import Mathlib.Data.List.Basic

namespace CollectorTemplate.Yaml

namespace Event

/-- How many collections an event opens. -/
def opens : Event → Nat
  | .sequenceStart _ | .mappingStart _ => 1
  | _ => 0

/-- How many collections an event closes. -/
def closes : Event → Nat
  | .sequenceEnd | .mappingEnd => 1
  | _ => 0

end Event

namespace Expectation

/-- How many collections are open for what is expected.  An entry of a flow sequence that is a
mapping is open besides the sequence. -/
def depth : Expectation → Nat
  | .blockNode | .blockNodeOrEntries | .flowNode | .content | .documentEnd => 0
  | .pairKey _ | .pairValue _ | .pairEnd _ => 2
  | _ => 1

/-- How many moves may come before one that takes a token. -/
def slack : Expectation → Nat
  | .pairKey _ => 3
  | .pairValue _ | .blockNodeOrEntries => 2
  | .content | .indentlessEntry | .blockValue _ | .pairEnd _ | .flowValue _ | .missingValue _ => 1
  | _ => 0

end Expectation

namespace Grammar

/-- How many collections are open in all. -/
def depth : List Expectation → Nat
  | [] => 0
  | expected :: stack => expected.depth + depth stack

/-- How many moves without a token are left. -/
def slack : List Expectation → Nat
  | [] => 0
  | expected :: stack => expected.slack + slack stack

@[simp] theorem depth_nil : depth [] = 0 := rfl

@[simp] theorem depth_cons (expected : Expectation) (stack : List Expectation) :
    depth (expected :: stack) = expected.depth + depth stack := rfl

@[simp] theorem slack_nil : slack [] = 0 := rfl

@[simp] theorem slack_cons (expected : Expectation) (stack : List Expectation) :
    slack (expected :: stack) = expected.slack + slack stack := rfl

/-- Tokens are taken off the front, but never the end of the text. -/
def Takes (lexemes rest : List Lexeme) : Prop :=
  ∃ taken, lexemes = taken ++ rest ∧ ∀ x ∈ taken, x.token ≠ .streamEnd

namespace Takes

variable {lexemes rest later : List Lexeme} {x : Lexeme}

theorem refl (lexemes : List Lexeme) : Takes lexemes lexemes := ⟨[], rfl, by simp⟩

theorem cons (hx : x.token ≠ .streamEnd) (h : Takes lexemes rest) : Takes (x :: lexemes) rest := by
  obtain ⟨taken, rfl, htaken⟩ := h
  exact ⟨x :: taken, rfl, List.forall_mem_cons.mpr ⟨hx, htaken⟩⟩

theorem one {token : Token} (hx : x.token = token) (htoken : token ≠ .streamEnd) :
    Takes (x :: lexemes) lexemes :=
  (refl lexemes).cons (hx ▸ htoken)

theorem trans (h : Takes lexemes rest) (h' : Takes rest later) : Takes lexemes later := by
  obtain ⟨taken, rfl, htaken⟩ := h
  obtain ⟨taken', rfl, htaken'⟩ := h'
  refine ⟨taken ++ taken', (List.append_assoc ..).symm, fun x hx => ?_⟩
  rcases List.mem_append.mp hx with hx | hx
  · exact htaken x hx
  · exact htaken' x hx

theorem length_le (h : Takes lexemes rest) : rest.length ≤ lexemes.length := by
  obtain ⟨taken, rfl, -⟩ := h
  rw [List.length_append]
  exact Nat.le_add_left _ _

theorem mem (h : Takes lexemes rest) (hx : x ∈ rest) : x ∈ lexemes := by
  obtain ⟨taken, rfl, -⟩ := h
  exact List.mem_append_right _ hx

theorem exists_end (h : Takes lexemes rest) (hend : ∃ x ∈ lexemes, x.token = .streamEnd) :
    ∃ x ∈ rest, x.token = .streamEnd := by
  obtain ⟨taken, rfl, htaken⟩ := h
  obtain ⟨x, hx, htoken⟩ := hend
  rcases List.mem_append.mp hx with hx | hx
  · exact absurd htoken (htaken x hx)
  · exact ⟨x, hx, htoken⟩

end Takes

/-- What is true of a move from `lexemes` with `stack` behind it, where `d` collections are open:
the stack counts the collections, what is new on it belongs to one, and `budget` bounds the moves
that are left. -/
structure Told (d budget : Nat) (stack : List Expectation) (lexemes : List Lexeme) (m : Move) :
    Prop where
  takes : Takes lexemes m.rest
  budget : 4 * m.rest.length + slack m.stack ≤ budget
  depth : Grammar.depth m.stack + m.event.event.closes = d + m.event.event.opens
  inner : ∀ e ∈ m.stack, e ∈ stack ∨ 0 < e.depth

/-- What is true of the outcome of a move: the tokens are not used up at the end of a text. -/
def Sound (d budget : Nat) (stack : List Expectation) (lexemes : List Lexeme) : Outcome → Prop
  | .told m => Told d budget stack lexemes m
  | .starved => ∀ x ∈ lexemes, x.token ≠ .streamEnd
  | .failed _ => True

namespace Sound

variable {d budget budget' : Nat} {stack : List Expectation} {lexemes rest : List Lexeme}
  {outcome : Outcome}

/-- Tokens may be taken before the move goes on. -/
theorem of_takes (h : Sound d budget stack rest outcome) (htakes : Takes lexemes rest)
    (hbudget : budget ≤ budget') : Sound d budget' stack lexemes outcome := by
  cases outcome with
  | told m =>
    exact ⟨htakes.trans h.takes, Nat.le_trans h.budget hbudget, h.depth, h.inner⟩
  | starved =>
    obtain ⟨taken, rfl, htaken⟩ := htakes
    exact List.forall_mem_append.mpr ⟨htaken, h⟩
  | failed => trivial

/-- One token may be taken before the move goes on. -/
theorem after_token {x : Lexeme} {token : Token} (hx : x.token = token)
    (htoken : token ≠ .streamEnd) (h : Sound d budget stack rest outcome) :
    Sound d budget stack (x :: rest) outcome :=
  h.of_takes (.one hx htoken) (Nat.le_refl _)

/-- Part of a collection may be expected before what the stack held. -/
theorem of_inner {expected : Expectation} (h : Sound d budget (expected :: stack) lexemes outcome)
    (hdepth : 0 < expected.depth) : Sound d budget stack lexemes outcome := by
  cases outcome with
  | told m =>
    refine ⟨h.takes, h.budget, h.depth, fun e he => ?_⟩
    rcases h.inner e he with he | he
    · rcases List.mem_cons.mp he with rfl | he
      · exact .inr hdepth
      · exact .inl he
    · exact .inr he
  | starved => exact h
  | failed => trivial

/-- An event that leaves the stack as it is. -/
theorem told {m : Move} (htakes : Takes lexemes m.rest) (hstack : m.stack = stack)
    (hbudget : 4 * m.rest.length + slack stack ≤ budget)
    (hdepth : Grammar.depth stack + m.event.event.closes = d + m.event.event.opens) :
    Sound d budget stack lexemes (.told m) := by
  refine ⟨htakes, hstack ▸ hbudget, hstack ▸ hdepth, fun e he => .inl (hstack ▸ he)⟩

/-- An event after which something more of a collection is expected. -/
theorem pushed {m : Move} {expected : Expectation} (htakes : Takes lexemes m.rest)
    (hstack : m.stack = expected :: stack) (hinner : 0 < expected.depth)
    (hdepth : expected.depth + Grammar.depth stack + m.event.event.closes =
      d + m.event.event.opens)
    (hbudget : 4 * m.rest.length + expected.slack + slack stack ≤ budget) :
    Sound d budget stack lexemes (.told m) := by
  refine (told htakes hstack ?_ ?_).of_inner hinner
  · rw [slack_cons]
    omega
  · rw [depth_cons]
    exact hdepth

end Sound

/-! ### Nodes -/

variable {handles : TagHandles} {block entries : Bool} {stack : List Expectation}
  {lexemes rest : List Lexeme} {lexeme : Lexeme} {budget : Nat}

/-- Properties are taken off the front of a node. -/
theorem front_spec (lexemes : List Lexeme) :
    Takes lexemes (front lexemes).2 ∧
      ((front lexemes).1 = {} ∧ (front lexemes).2 = lexemes ∨
        (front lexemes).1.start.isSome = true ∧ (front lexemes).2.length < lexemes.length) := by
  unfold front
  split
  · exact ⟨⟨[_, _], rfl, by simp⟩, .inr ⟨rfl, by simp only [List.length_cons]; omega⟩⟩
  · exact ⟨⟨[_, _], rfl, by simp⟩, .inr ⟨rfl, by simp only [List.length_cons]; omega⟩⟩
  · exact ⟨⟨[_], rfl, by simp⟩, .inr ⟨rfl, by simp only [List.length_cons]; omega⟩⟩
  · exact ⟨⟨[_], rfl, by simp⟩, .inr ⟨rfl, by simp only [List.length_cons]; omega⟩⟩
  · exact ⟨.refl _, .inl ⟨rfl, rfl⟩⟩

/-- The content of a node takes a token, unless it is a sequence that its dash opens, or properties
have been taken before it. -/
theorem nodeContent_sound {found : Front} {tag : Option TagText}
    (hbudget : 4 * rest.length + slack stack + (if entries then 5 else 0) ≤ budget + 4)
    (hfound : found.start.isSome = true → 4 * rest.length + slack stack ≤ budget) :
    Sound (depth stack) budget stack rest (nodeContent block entries stack found tag rest) := by
  unfold nodeContent
  split
  · exact fun x hx => absurd hx (by simp)
  rename_i lexeme rest
  rw [List.length_cons] at hbudget hfound
  have htaken : 4 * rest.length + slack stack ≤ budget := by omega
  -- All collections open alike; only the sequence of a dash leaves its token, for its first entry.
  have hopened : ∀ {m : Move} {expected : Expectation}, Takes (lexeme :: rest) m.rest →
      m.stack = expected :: stack → expected.depth = 1 → m.event.event.opens = 1 →
      m.event.event.closes = 0 → 4 * m.rest.length + expected.slack + slack stack ≤ budget →
      Sound (depth stack) budget stack (lexeme :: rest) (.told m) := by
    intro m expected htakes hstack hdepth hopens hcloses hbudget
    exact .pushed htakes hstack (by omega) (by omega) hbudget
  dsimp only
  split
  · rename_i style text htoken
    exact .told (.one htoken (by simp)) rfl htaken rfl
  · rename_i htoken
    exact hopened (.one htoken (by simp)) rfl rfl rfl rfl htaken
  · rename_i htoken
    exact hopened (.one htoken (by simp)) rfl rfl rfl rfl htaken
  rcases Bool.eq_false_or_eq_true (entries && lexeme.token == .blockEntry) with hentry | hentry
  · -- The budget holds one token more for this case.
    rw [if_pos hentry]
    obtain ⟨rfl, -⟩ := Bool.and_eq_true_iff.mp hentry
    rw [if_pos rfl] at hbudget
    refine hopened (.refl _) rfl rfl rfl rfl ?_
    show 4 * (rest.length + 1) + 1 + slack stack ≤ budget
    omega
  rw [if_neg (by simp [hentry])]
  split
  · rename_i htoken
    have hsequence := beq_iff_eq.mp (Bool.and_eq_true_iff.mp htoken).2
    exact hopened (.one hsequence (by simp)) rfl rfl rfl rfl htaken
  split
  · rename_i htoken
    have hmapping := beq_iff_eq.mp (Bool.and_eq_true_iff.mp htoken).2
    exact hopened (.one hmapping (by simp)) rfl rfl rfl rfl htaken
  -- Without content the properties alone make a node, and they have been taken already.
  split
  · rename_i hstart
    exact .told (.refl _) rfl (hfound hstart) rfl
  · trivial

theorem node_sound
    (hbudget : 4 * lexemes.length + slack stack + (if entries then 5 else 0) ≤ budget + 4) :
    Sound (depth stack) budget stack lexemes (node block entries handles stack lexemes) := by
  unfold node
  split
  · rename_i name start stop rest
    refine .told (.one rfl (by simp)) rfl ?_ rfl
    rw [List.length_cons] at hbudget
    show 4 * rest.length + slack stack ≤ budget
    omega
  obtain ⟨htakes, hfront⟩ := front_spec lexemes
  generalize front lexemes = f at htakes hfront
  obtain ⟨found, rest⟩ := f
  dsimp only at htakes hfront
  have hlength := htakes.length_le
  have hcontent : ∀ tag, Sound (depth stack) budget stack lexemes
      (nodeContent block entries stack found tag rest) := by
    intro tag
    refine (nodeContent_sound (by omega) fun hstart => ?_).of_takes htakes (Nat.le_refl _)
    rcases hfront with ⟨rfl, -⟩ | ⟨-, hshort⟩
    · nomatch hstart
    · omega
  dsimp only
  split
  · obtain ⟨taken, rfl, htaken⟩ := htakes
    exact List.forall_mem_append.mpr ⟨htaken, by simp⟩
  · exact hcontent none
  · split
    · trivial
    · exact hcontent _

theorem nodeUnless_sound {missing : Token → Bool} {place : Mark}
    (hbudget : 4 * lexemes.length + slack stack + (if entries then 1 else 0) ≤ budget) :
    Sound (depth stack) budget stack lexemes
      (nodeUnless missing place block entries handles stack lexemes) := by
  unfold nodeUnless
  split
  · exact fun x hx => absurd hx (by simp)
  split
  · exact .told (.refl _) rfl (Nat.le_trans (Nat.le_add_right _ _) hbudget) rfl
  · refine node_sound ?_
    cases entries with
    | false => exact Nat.le_add_right_of_le hbudget
    | true => exact Nat.add_le_add_right hbudget 4

/-! ### Moves -/

/-- A node after which something more of a collection is expected. -/
theorem node_after {expected : Expectation} {d : Nat} (hdepth : expected.depth + depth stack = d)
    (hinner : 0 < expected.depth)
    (hbudget : 4 * lexemes.length + expected.slack + slack stack ≤ budget + 4) :
    Sound d budget stack lexemes (node block false handles (expected :: stack) lexemes) := by
  rw [← hdepth, ← depth_cons]
  refine (node_sound ?_).of_inner hinner
  rw [slack_cons, if_neg Bool.false_ne_true]
  omega

theorem nodeUnless_after {missing : Token → Bool} {place : Mark} {expected : Expectation} {d : Nat}
    (hdepth : expected.depth + depth stack = d) (hinner : 0 < expected.depth)
    (hbudget : 4 * lexemes.length + expected.slack + slack stack + 1 ≤ budget) :
    Sound d budget stack lexemes
      (nodeUnless missing place block entries handles (expected :: stack) lexemes) := by
  rw [← hdepth, ← depth_cons]
  refine (nodeUnless_sound ?_).of_inner hinner
  rw [slack_cons]
  split
  · omega
  · omega

/-- One token is taken and then a node. -/
theorem token_node_after {missing : Token → Bool} {place : Mark} {token : Token}
    {expected : Expectation} {d : Nat} (htoken : lexeme.token = token) (hend : token ≠ .streamEnd)
    (hdepth : expected.depth + depth stack = d) (hinner : 0 < expected.depth)
    (hslack : expected.slack ≤ 2) (hbudget : 4 * rest.length + 3 + slack stack ≤ budget) :
    Sound d budget stack (lexeme :: rest)
      (nodeUnless missing place block entries handles (expected :: stack) rest) := by
  refine .after_token htoken hend (nodeUnless_after hdepth hinner ?_)
  omega

/-- A collection ends with the token that closes it. -/
theorem close_sound {m : Move} {token : Token} (htoken : lexeme.token = token)
    (hend : token ≠ .streamEnd) (hrest : m.rest = rest) (hstack : m.stack = stack)
    (hcloses : m.event.event.closes = 1) (hopens : m.event.event.opens = 0)
    (hbudget : 4 * rest.length + slack stack ≤ budget) :
    Sound (1 + depth stack) budget stack (lexeme :: rest) (.told m) := by
  subst hrest
  refine .told (.one htoken hend) hstack hbudget ?_
  rw [hcloses, hopens]
  omega

theorem sequenceEntry_sound {opened : Mark}
    (hbudget : 4 * lexemes.length + slack stack ≤ budget + 1) :
    Sound (1 + depth stack) budget stack lexemes (sequenceEntry handles stack opened lexemes) := by
  unfold sequenceEntry
  split
  · exact fun x hx => absurd hx (by simp)
  rename_i lexeme rest
  rw [List.length_cons] at hbudget
  split
  · rename_i htoken
    refine .pushed (.one htoken (by simp)) rfl (Nat.succ_pos 1) ?_ ?_
    · simp only [Expectation.depth, Event.opens, Event.closes]
      omega
    · simp only [Expectation.slack]
      omega
  · rename_i htoken
    exact close_sound htoken (by simp) rfl rfl rfl rfl (by omega)
  · refine node_after rfl Nat.one_pos ?_
    simp only [Expectation.slack, List.length_cons]
    omega

theorem mappingKey_sound {opened : Mark}
    (hbudget : 4 * lexemes.length + slack stack ≤ budget + 1) :
    Sound (1 + depth stack) budget stack lexemes (mappingKey handles stack opened lexemes) := by
  unfold mappingKey
  split
  · exact fun x hx => absurd hx (by simp)
  rename_i lexeme rest
  rw [List.length_cons] at hbudget
  split
  · rename_i htoken
    simp [Sound, htoken]
  · rename_i after later htoken
    exact token_node_after htoken (by simp) rfl Nat.one_pos (by simp [Expectation.slack]) (by omega)
  · rename_i htoken
    exact close_sound htoken (by simp) rfl rfl rfl rfl (by omega)
  · refine node_after rfl Nat.one_pos ?_
    simp only [Expectation.slack, List.length_cons]
    omega

section

variable {expected next : Expectation}

/-- What is expected pays for a move without a token if less may come after it. -/
theorem budget_of_lower (h : next.slack < expected.slack) :
    4 * (lexeme :: rest).length + next.slack + slack stack ≤
      4 * rest.length + 3 + expected.slack + slack stack := by
  rw [List.length_cons]
  omega

/-- An empty scalar is told for a token, or for none, and the collection goes on. -/
theorem empty_sound {place : Mark} {d : Nat} (htakes : Takes lexemes rest)
    (hdepth : next.depth + depth stack = d) (hinner : 0 < next.depth)
    (hbudget : 4 * rest.length + next.slack + slack stack ≤ budget) :
    Sound d budget stack lexemes (.told ⟨empty place, next :: stack, rest⟩) :=
  .pushed htakes rfl hinner hdepth hbudget

end

/-- Whatever is expected, a move is sound.  Only where a document is over there is no move. -/
theorem move_sound (handles : TagHandles) (stack : List Expectation) (lexeme : Lexeme)
    (rest : List Lexeme) {expected : Expectation} (hexpected : expected ≠ .documentEnd) :
    Sound (expected.depth + depth stack) (4 * rest.length + 3 + expected.slack + slack stack) stack
      (lexeme :: rest) (move handles expected stack lexeme rest) := by
  -- What the token that is taken pays for at least.
  have htaken : 4 * rest.length + slack stack ≤
      4 * rest.length + 3 + expected.slack + slack stack := by omega
  cases expected with
  | documentEnd => exact absurd rfl hexpected
  | blockNode | flowNode | blockNodeOrEntries =>
    refine (Nat.zero_add (depth stack)).symm ▸ node_sound ?_
    simp [Expectation.slack]
    omega
  | content =>
    unfold move
    dsimp only
    split
    · refine .told (.refl _) rfl ?_ ?_
      · simp [Expectation.slack]
        omega
      · simp [Expectation.depth, empty, Event.opens, Event.closes]
    · refine (Nat.zero_add (depth stack)).symm ▸ node_sound ?_
      simp [Expectation.slack]
      omega
  | blockEntry opened | blockKey opened =>
    unfold move
    dsimp only
    split
    · rename_i htoken
      exact token_node_after htoken (by simp) rfl Nat.one_pos (by simp [Expectation.slack])
        (by omega)
    · rename_i htoken
      exact close_sound htoken (by simp) rfl rfl rfl rfl htaken
    · trivial
  | indentlessEntry =>
    unfold move
    dsimp only
    split
    · rename_i htoken
      exact token_node_after htoken (by simp) rfl Nat.one_pos (by simp [Expectation.slack])
        (by omega)
    · refine .told (.refl _) rfl ?_ (Nat.add_comm _ _)
      simp only [Expectation.slack, List.length_cons]
      omega
  | blockValue opened =>
    unfold move
    dsimp only
    split
    · rename_i htoken
      exact token_node_after htoken (by simp) rfl Nat.one_pos (by simp [Expectation.slack])
        (by omega)
    · exact empty_sound (.refl _) rfl Nat.one_pos (budget_of_lower Nat.one_pos)
  | firstFlowEntry opened =>
    refine sequenceEntry_sound ?_
    simp only [Expectation.slack, List.length_cons]
    omega
  | flowEntry opened =>
    unfold move
    dsimp only
    split
    · rename_i htoken
      refine .after_token htoken (by simp) (sequenceEntry_sound ?_)
      exact Nat.le_succ_of_le htaken
    · rename_i htoken
      exact close_sound htoken (by simp) rfl rfl rfl rfl htaken
    · trivial
  | pairKey opened =>
    unfold move
    dsimp only
    -- Whatever token shows that there is no key is taken with it.
    have hempty {token : Token} (htoken : lexeme.token = token) (hend : token ≠ .streamEnd) :
        Sound (2 + depth stack) (4 * rest.length + 3 + 3 + slack stack) stack (lexeme :: rest)
          (.told ⟨empty lexeme.stop, .pairValue opened :: stack, rest⟩) :=
      empty_sound (.one htoken hend) rfl (Nat.succ_pos 1) (by simp [Expectation.slack])
    split
    · rename_i htoken
      exact hempty htoken (by simp)
    · rename_i htoken
      exact hempty htoken (by simp)
    · rename_i htoken
      exact hempty htoken (by simp)
    · exact node_after rfl (Nat.succ_pos 1)
        (Nat.le_add_right_of_le (budget_of_lower (Nat.lt_succ_self 2)))
  | pairValue opened =>
    unfold move
    dsimp only
    split
    · rename_i htoken
      simp [Sound, htoken]
    · rename_i after later htoken
      exact token_node_after htoken (by simp) rfl (Nat.succ_pos 1) (by simp [Expectation.slack])
        (by omega)
    · exact empty_sound (.refl _) rfl (Nat.succ_pos 1) (budget_of_lower (Nat.lt_succ_self 1))
  | pairEnd opened =>
    refine .pushed (.refl _) rfl Nat.one_pos ?_ (budget_of_lower Nat.one_pos)
    simp only [Expectation.depth, Event.opens, Event.closes]
    omega
  | firstFlowKey opened =>
    refine mappingKey_sound ?_
    simp only [Expectation.slack, List.length_cons]
    omega
  | flowKey opened =>
    unfold move
    dsimp only
    split
    · rename_i htoken
      refine .after_token htoken (by simp) (mappingKey_sound ?_)
      exact Nat.le_succ_of_le htaken
    · rename_i htoken
      exact close_sound htoken (by simp) rfl rfl rfl rfl htaken
    · trivial
  | flowValue opened =>
    unfold move
    dsimp only
    split
    · rename_i htoken
      simp [Sound, htoken]
    · rename_i after later htoken
      exact token_node_after htoken (by simp) rfl Nat.one_pos (by simp [Expectation.slack])
        (by omega)
    · exact empty_sound (.refl _) rfl Nat.one_pos (budget_of_lower Nat.one_pos)
  | missingValue opened =>
    exact empty_sound (.refl _) rfl Nat.one_pos (budget_of_lower Nat.one_pos)

/-! ### Runs -/

/-- Events that close `d` open collections, the last of them with the last event. -/
inductive Closes : Nat → List Event → Prop
  | done : Closes 0 []
  | step {d d' : Nat} {e : Event} {events : List Event} (depth : d' + e.closes = d + 1 + e.opens)
      (rest : Closes d' events) : Closes (d + 1) (e :: events)

/-- What is left of the tokens was there before. -/
theorem mem_of_run {limit : Nat} {x : Lexeme} (h : x ∈ (run handles limit stack lexemes).2.2) :
    x ∈ lexemes := by
  induction limit generalizing stack lexemes with
  | zero =>
    cases stack with
    | nil => exact h
    | cons => exact h
  | succ limit ih =>
    cases stack with
    | nil => exact h
    | cons expected stack =>
      cases lexemes with
      | nil => exact h
      | cons lexeme rest =>
        rw [run] at h
        by_cases hexpected : expected = .documentEnd
        · subst hexpected
          nomatch h
        · have hsound := move_sound handles stack lexeme rest hexpected
          cases hmove : move handles expected stack lexeme rest with
          | starved => rw [hmove] at h; nomatch h
          | failed fault => rw [hmove] at h; exact h
          | told m =>
            rw [hmove] at h hsound
            exact hsound.takes.mem (ih h)

/-- Where the end of the text is among the tokens, events are told until a fault is met or all
collections are closed. -/
theorem run_spec (handles : TagHandles) {limit : Nat} (hstack : ∀ e ∈ stack, 0 < e.depth)
    (hend : ∃ x ∈ lexemes, x.token = .streamEnd)
    (hlimit : 4 * lexemes.length + slack stack < limit) :
    (∃ events fault left, run handles limit stack lexemes = (events, some (some fault), left)) ∨
      ∃ events left, run handles limit stack lexemes = (events, none, left) ∧
        Closes (depth stack) (events.map (·.event)) := by
  -- Induction on the limit: every move lowers four times the tokens plus the slack of the stack.
  induction limit generalizing stack lexemes with
  | zero => exact absurd hlimit (Nat.not_lt_zero _)
  | succ limit ih =>
    cases stack with
    | nil => exact .inr ⟨[], lexemes, rfl, .done⟩
    | cons expected stack =>
      obtain ⟨x, hx, htoken⟩ := hend
      cases lexemes with
      | nil => nomatch hx
      | cons lexeme rest =>
        -- What is expected belongs to a collection, so that the document is not over.
        have hdepth := hstack expected List.mem_cons_self
        have hexpected : expected ≠ .documentEnd := by
          rintro rfl
          nomatch hdepth
        have hsound := move_sound handles stack lexeme rest hexpected
        rw [run]
        cases hmove : move handles expected stack lexeme rest with
        | starved =>
          rw [hmove] at hsound
          exact absurd htoken (hsound x hx)
        | failed fault => exact .inl ⟨[], fault, lexeme :: rest, rfl⟩
        | told m =>
          rw [hmove] at hsound
          have hstack' : ∀ e ∈ m.stack, 0 < e.depth := by
            intro e he
            rcases hsound.inner e he with he | he
            · exact hstack e (List.mem_cons_of_mem _ he)
            · exact he
          have hend' := hsound.takes.exists_end ⟨x, hx, htoken⟩
          have hbudget := hsound.budget
          rw [List.length_cons, slack_cons] at hlimit
          dsimp only
          rcases ih hstack' hend' (by omega) with ⟨events, fault, left, h⟩ |
            ⟨events, left, h, hcloses⟩
          · rw [h]
            exact .inl ⟨_, fault, left, rfl⟩
          · rw [h]
            refine .inr ⟨_, left, rfl, ?_⟩
            obtain ⟨d, hd⟩ : ∃ d, depth (expected :: stack) = d + 1 :=
              Nat.exists_eq_add_one.mpr (by rw [depth_cons]; omega)
            rw [hd]
            refine .step ?_ hcloses
            rw [← hd, depth_cons]
            exact hsound.depth

/-- Whether an event begins a node that holds anything, or that has properties at least. -/
def IsBeginning : Event → Prop
  | .reference _ | .sequenceStart _ | .mappingStart _ => True
  | .scalar properties style text => style ≠ .plain ∨ text ≠ [] ∨ properties ≠ {}
  | .sequenceEnd | .mappingEnd => False

/-- Whether events are those of one such node. -/
def IsNode (events : List PlacedEvent) : Prop :=
  ∃ first rest, events = first :: rest ∧ IsBeginning first.event ∧
    Closes first.event.opens (rest.map (·.event))

end Grammar

end CollectorTemplate.Yaml
