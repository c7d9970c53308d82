/-
Which texts are documents with content.

The tokens of a text say whether it is silent, and the grammar makes of them the events of one node
or of an empty scalar.  So a text that is read without complaint is silent just if its root holds
nothing and carries no properties either.

* `DocumentEvents.ofTokens_faulty` : a fault on the way to the end of the text is never overlooked;
* `DocumentEvents.ofTokens_marks`, `DocumentEvents.ofTokens_part` : the events of a text that holds
  no more than marks, and of one whose first other token is a part of a node;
* `Document.root_of_silent`, `Document.root_of_not_silent` : the roots of the two kinds of texts;
* `Document.not_isWaiting` : no directive of a silent text waits for its document.
-/
import CollectorTemplate.Proofs.Yaml.Node
import CollectorTemplate.Proofs.Yaml.Silence

namespace CollectorTemplate.Yaml

open Lexing

namespace Grammar

variable {handles : TagHandles} {block entries : Bool} {stack : List Expectation}
  {lexemes rest : List Lexeme} {lexeme : Lexeme} {m : Move}

/-- A node that has properties, or whose first token is a part, holds anything or has those. -/
theorem nodeContent_begins {found : Front} {tag : Option TagText}
    (h : nodeContent block entries stack found tag (lexeme :: rest) = .told m)
    (hfound : (⟨found.anchor, tag⟩ : Properties) ≠ {} ∨
      found.start = none ∧ lexeme.token.isPart = true) : IsBeginning m.event.event := by
  unfold nodeContent at h
  dsimp only at h
  -- Collections begin alike; what may be empty is a scalar, or a node without a token of its own.
  split at h
  · rename_i style text htoken
    obtain rfl := Outcome.told.inj h
    rcases hfound with hproperties | ⟨-, hpart⟩
    · exact .inr (.inr hproperties)
    · by_cases hplain : style = .plain
      · refine .inr (.inl ?_)
        rintro rfl
        rw [htoken, hplain] at hpart
        nomatch hpart
      · exact .inl hplain
  · obtain rfl := Outcome.told.inj h
    trivial
  · obtain rfl := Outcome.told.inj h
    trivial
  split at h
  · obtain rfl := Outcome.told.inj h
    trivial
  split at h
  · obtain rfl := Outcome.told.inj h
    trivial
  split at h
  · obtain rfl := Outcome.told.inj h
    trivial
  split at h
  · rename_i hstart
    obtain rfl := Outcome.told.inj h
    rcases hfound with hproperties | ⟨hnone, -⟩
    · exact .inr (.inr hproperties)
    · rw [hnone] at hstart
      nomatch hstart
  · nomatch h

/-- What is taken off the front of a node are properties. -/
theorem front_properties (lexemes : List Lexeme) :
    (front lexemes = ({}, lexemes)) ∨ (front lexemes).1.anchor ≠ none ∨
      (front lexemes).1.tag ≠ none := by
  unfold front
  split
  · exact .inr (.inl (Option.some_ne_none _))
  · exact .inr (.inl (Option.some_ne_none _))
  · exact .inr (.inl (Option.some_ne_none _))
  · exact .inr (.inr (Option.some_ne_none _))
  · exact .inl rfl

theorem node_begins (hlexeme : lexeme.token.isPart = true)
    (h : node block entries handles stack (lexeme :: rest) = .told m) :
    IsBeginning m.event.event := by
  unfold node at h
  split at h
  · obtain rfl := Outcome.told.inj h
    trivial
  have hfront := front_properties (lexeme :: rest)
  generalize front (lexeme :: rest) = f at h hfront
  obtain ⟨found, after⟩ := f
  dsimp only at h hfront
  -- The tag that is told need not be the one taken, but is there if that is.
  have hcontent : ∀ tag, (found.tag ≠ none → tag ≠ none) →
      nodeContent block entries stack found tag after = .told m → IsBeginning m.event.event := by
    intro tag htag h
    cases after with
    | nil => nomatch h
    | cons y later =>
      refine nodeContent_begins h ?_
      rcases hfront with hnone | hanchor | hsome
      · obtain ⟨rfl, hsame⟩ := Prod.mk.inj hnone
        obtain ⟨rfl, rfl⟩ := List.cons.inj hsame
        exact .inr ⟨rfl, hlexeme⟩
      · exact .inl fun h => hanchor (congrArg Properties.anchor h)
      · exact .inl fun h => htag hsome (congrArg Properties.tag h)
  split at h
  · nomatch h
  · rename_i htag
    exact hcontent none (fun h => absurd htag h) h
  · split at h
    · nomatch h
    · exact hcontent _ (fun _ => Option.some_ne_none _) h

/-- From a part of a node on, up to the end of the text, the events are those of a node. -/
theorem run_begins (handles : TagHandles) {expected : Expectation} {limit : Nat}
    (hexpected : expected = .blockNode ∨ expected = .content) (hlexeme : lexeme.token.isPart = true)
    (hend : ∃ x ∈ lexeme :: rest, x.token = .streamEnd)
    (hlimit : 4 * (lexeme :: rest).length + 3 < limit) :
    (∃ events fault left,
        run handles limit [expected] (lexeme :: rest) = (events, some (some fault), left)) ∨
      ∃ events left, run handles limit [expected] (lexeme :: rest) = (events, none, left) ∧
        IsNode events := by
  obtain ⟨hzero, hslack, hdocument⟩ :
      expected.depth = 0 ∧ expected.slack ≤ 1 ∧ expected ≠ .documentEnd := by
    rcases hexpected with rfl | rfl
    · exact ⟨rfl, Nat.zero_le 1, fun h => nomatch h⟩
    · exact ⟨rfl, Nat.le_refl 1, fun h => nomatch h⟩
  have hnode : move handles expected [] lexeme rest =
      node true false handles [] (lexeme :: rest) := by
    rcases hexpected with rfl | rfl
    · rfl
    · have hcontent : endsContent lexeme.token = false := by
        unfold endsContent
        split
        all_goals simp_all [Token.isPart]
      rw [move, if_neg (by simp [hcontent])]
  -- The first move begins the node, and what is left on the stack closes the collection it opens.
  have hsound := move_sound handles [] lexeme rest hdocument
  obtain ⟨n, rfl⟩ : ∃ n, limit = n + 1 := Nat.exists_eq_add_one.mpr (Nat.zero_lt_of_lt hlimit)
  rw [List.length_cons] at hlimit
  rw [run]
  cases hmove : move handles expected [] lexeme rest with
  | starved =>
    rw [hmove] at hsound
    obtain ⟨x, hx, htoken⟩ := hend
    exact absurd htoken (hsound x hx)
  | failed fault => exact .inl ⟨[], fault, lexeme :: rest, rfl⟩
  | told m =>
    have hbegins := node_begins hlexeme (hnode.symm.trans hmove)
    rw [hmove] at hsound
    have hbudget := hsound.budget
    have hdepth := hsound.depth
    have hcloses : m.event.event.closes = 0 := by
      cases hevent : m.event.event with
      | sequenceEnd | mappingEnd => rw [hevent] at hbegins; exact hbegins.elim
      | _ => rfl
    have hinner : ∀ e ∈ m.stack, 0 < e.depth := fun e he =>
      (hsound.inner e he).resolve_left List.not_mem_nil
    rw [hzero, hcloses, depth_nil, Nat.zero_add, Nat.add_zero] at hdepth
    have hlimit' : 4 * m.rest.length + slack m.stack < n := by
      rw [slack_nil] at hbudget
      omega
    dsimp only
    rcases run_spec handles hinner (hsound.takes.exists_end hend) hlimit' with
      ⟨events, fault, left, h⟩ | ⟨events, left, h, hclosed⟩
    · rw [h]
      exact .inl ⟨_, fault, left, rfl⟩
    · rw [h]
      exact .inr ⟨_, left, rfl, m.event, events, rfl, hbegins, hdepth ▸ hclosed⟩

end Grammar

namespace DocumentEvents

variable {lexemes rest : List Lexeme} {lexeme : Lexeme} {handles : TagHandles}

/-! ### Around documents -/

theorem hasMore_of_not_end (h : ∀ x ∈ lexemes, x.token ≠ .streamEnd) : hasMore lexemes = true := by
  fun_induction hasMore lexemes with
  | case1 start stop rest ih => exact ih fun x hx => h x (List.mem_cons_of_mem _ hx)
  | case2 start stop rest => exact absurd rfl (h _ List.mem_cons_self)
  | case3 => rfl

theorem hasMore_of_part (h : ∃ x, firstOf lexemes = some x ∧ x.token.isPart = true) :
    hasMore lexemes = true := by
  fun_induction hasMore lexemes with
  | case1 start stop rest ih => exact ih h
  | case2 start stop rest =>
    obtain ⟨x, hfirst, hx⟩ := h
    obtain rfl := Option.some.inj hfirst
    nomatch hx
  | case3 => rfl

theorem directives_spec {version : Bool} {own : TagHandles}
    (h : directives lexemes version own = .ok (handles, rest)) :
    ∃ taken, lexemes = taken ++ rest ∧ ∀ x ∈ taken, x.token.isMark = true := by
  fun_induction directives lexemes version own with
  | case1 | case2 | case4 => nomatch h
  | case3 major minor start stop rest version own hversion hnumber ih =>
    obtain ⟨taken, rfl, htaken⟩ := ih h
    exact ⟨_ :: taken, rfl, List.forall_mem_cons.mpr ⟨rfl, htaken⟩⟩
  | case5 handle expansion start stop rest version own hhandle ih =>
    obtain ⟨taken, rfl, htaken⟩ := ih h
    exact ⟨_ :: taken, rfl, List.forall_mem_cons.mpr ⟨rfl, htaken⟩⟩
  | case6 =>
    obtain ⟨-, rfl⟩ := Prod.mk.inj (Except.ok.inj h)
    exact ⟨[], rfl, by simp⟩

/-! ### The content of a document -/

theorem endsContent_of_isMark (h : lexeme.token.isMark = true ∨ lexeme.token = .streamEnd) :
    Grammar.endsContent lexeme.token = true := by
  unfold Grammar.endsContent
  split
  all_goals simp_all [Token.isMark]

/-- Behind its marker a document may be empty. -/
theorem content_of_mark {fault : Option Fault}
    (h : lexeme.token.isMark = true ∨ lexeme.token = .streamEnd) :
    content handles .content (lexeme :: rest) fault =
      ⟨[Grammar.empty lexeme.start], none, hasMore (lexeme :: rest)⟩ := by
  have hmove : Grammar.move handles .content [] lexeme rest =
      .told ⟨Grammar.empty lexeme.start, [], lexeme :: rest⟩ := by
    rw [Grammar.move, if_pos (endsContent_of_isMark h)]
  have hrun : Grammar.run handles (4 * (lexeme :: rest).length + 4) [.content] (lexeme :: rest) =
      ([Grammar.empty lexeme.start], none, lexeme :: rest) := by
    rw [Grammar.run, hmove]
    dsimp only
    rw [Grammar.run]
  rw [content, hrun]

/-- Without a marker there is no document that a mark begins. -/
theorem blockNode_of_mark {fault : Option Fault} (h : lexeme.token.isMark = true) :
    (content handles .blockNode (lexeme :: rest) fault).fault.isSome = true := by
  obtain ⟨token, start, stop⟩ := lexeme
  have hmove : ∃ own, Grammar.move handles .blockNode [] ⟨token, start, stop⟩ rest =
      .failed own := by
    cases token with
    | version | tagHandle | documentStart | documentEnd => exact ⟨_, rfl⟩
    | _ => nomatch h
  obtain ⟨own, hmove⟩ := hmove
  rw [content, Grammar.run, hmove]
  rfl

/-- From a part of a node on, the content of a document is that node. -/
theorem content_of_part {expected : Expectation} {fault : Option Fault}
    (hexpected : expected = .blockNode ∨ expected = .content) (hlexeme : lexeme.token.isPart = true)
    (hend : ∃ x ∈ lexeme :: rest, x.token = .streamEnd) :
    (content handles expected (lexeme :: rest) fault).fault.isSome = true ∨
      Grammar.IsNode (content handles expected (lexeme :: rest) fault).events := by
  rcases Grammar.run_begins handles hexpected hlexeme hend (Nat.lt_succ_self _) with
    ⟨events, own, left, h⟩ | ⟨events, left, h, hnode⟩
  · rw [content, h]
    exact .inl rfl
  · rw [content, h]
    cases left with
    | nil => exact .inr hnode
    | cons => exact .inr hnode

/-- Tokens without the end of the text leave a fault, or more to come. -/
theorem content_faulty {expected : Expectation} {fault : Option Fault}
    (hfault : fault.isSome = true) (hend : ∀ x ∈ lexemes, x.token ≠ .streamEnd) :
    (content handles expected lexemes fault).fault.isSome = true ∨
      (content handles expected lexemes fault).more = true := by
  unfold content
  rcases hrun : Grammar.run handles (4 * lexemes.length + 4) [expected] lexemes with
    ⟨events, stop, left⟩
  have hleft : ∀ x ∈ left, x.token ≠ .streamEnd := fun x hx =>
    hend x (Grammar.mem_of_run (by rw [hrun]; exact hx))
  split
  · exact .inl hfault
  · exact .inl rfl
  · exact .inl hfault
  · rename_i heq
    obtain ⟨-, heq⟩ := Prod.mk.inj heq
    obtain ⟨-, rfl⟩ := Prod.mk.inj heq
    exact .inr (hasMore_of_not_end hleft)

/-! ### The first document -/

/-- What the first document of a text may be: faulty before it begins, no document at all, content
behind a marker, or content without one. -/
inductive First (stream : TokenStream) : DocumentEvents → Prop
  | faulty {d : DocumentEvents} (fault : d.fault.isSome = true) : First stream d
  | marks (marks : ∀ x ∈ stream.lexemes, x.token.isMark = true) :
      First stream ⟨[], stream.fault, false⟩
  | none {x : Lexeme} {rest : List Lexeme} (lexemes : stream.lexemes = x :: rest)
      (token : x.token = .streamEnd) : First stream ⟨[], none, false⟩
  | behind {taken body : List Lexeme} {start stop : Mark} {handles : TagHandles}
      (lexemes : stream.lexemes = taken ++ ⟨.documentStart, start, stop⟩ :: body)
      (marks : ∀ x ∈ taken, x.token.isMark = true) :
      First stream (content handles .content body stream.fault)
  | bare {x : Lexeme} {rest : List Lexeme} (lexemes : stream.lexemes = x :: rest)
      (token : x.token ≠ .streamEnd) :
      First stream (content TagHandles.standard .blockNode (x :: rest) stream.fault)

theorem ofTokens_cases (stream : TokenStream) : First stream (ofTokens stream) := by
  obtain ⟨lexemes, fault⟩ := stream
  unfold ofTokens
  dsimp only
  split
  · exact .marks (by simp)
  · exact .none rfl rfl
  · rename_i first rest hfirst
    split
    rotate_left 3
    · refine .bare rfl fun htoken => ?_
      obtain ⟨token, start, stop⟩ := first
      obtain rfl : token = .streamEnd := htoken
      exact hfirst start stop rfl
    -- Directives and a document's marker begin alike.
    all_goals
      split
      · exact .faulty rfl
      · rename_i handles h
        obtain ⟨taken, hlexemes, htaken⟩ := directives_spec h
        have hmarks : ∀ x ∈ (⟨first :: rest, fault⟩ : TokenStream).lexemes,
            x.token.isMark = true := by
          rw [hlexemes, List.append_nil]
          exact htaken
        exact .marks hmarks
      · rename_i handles start stop body h
        obtain ⟨taken, hlexemes, htaken⟩ := directives_spec h
        exact .behind hlexemes htaken
      · exact .faulty rfl

variable {before : List Lexeme} {place : Mark}

/-- A fault on the way to the end of the text is not overlooked. -/
theorem ofTokens_faulty {stream : TokenStream} (hfault : stream.fault.isSome = true)
    (hend : ∀ x ∈ stream.lexemes, x.token ≠ .streamEnd) :
    (ofTokens stream).fault.isSome = true ∨ (ofTokens stream).more = true := by
  have hcases := ofTokens_cases stream
  generalize ofTokens stream = d at hcases ⊢
  cases hcases with
  | faulty h => exact .inl h
  | marks => exact .inl hfault
  | none hlexemes htoken => exact absurd htoken (hend _ (hlexemes ▸ List.mem_cons_self))
  | behind hlexemes =>
    refine content_faulty hfault fun x hx => hend x (hlexemes ▸ ?_)
    exact List.mem_append_right _ (List.mem_cons_of_mem _ hx)
  | bare hlexemes => exact content_faulty hfault fun x hx => hend x (hlexemes ▸ hx)

theorem isMark_or_streamEnd (hbefore : ∀ x ∈ before, x.token.isMark = true) (place : Mark) :
    ∀ x ∈ before ++ [⟨.streamEnd, place, place⟩],
      x.token.isMark = true ∨ x.token = .streamEnd := by
  intro x hx
  rcases List.mem_append.mp hx with hx | hx
  · exact .inl (hbefore x hx)
  · rw [List.mem_singleton.mp hx]
    exact .inr rfl

/-- No more than marks make no document, or an empty one. -/
theorem ofTokens_marks (hbefore : ∀ x ∈ before, x.token.isMark = true) :
    (ofTokens ⟨before ++ [⟨.streamEnd, place, place⟩], none⟩).fault.isSome = true ∨
      (ofTokens ⟨before ++ [⟨.streamEnd, place, place⟩], none⟩).events = [] ∨
      ∃ place',
        (ofTokens ⟨before ++ [⟨.streamEnd, place, place⟩], none⟩).events =
          [Grammar.empty place'] := by
  have hkind := isMark_or_streamEnd hbefore place
  generalize hstream : (⟨before ++ [⟨.streamEnd, place, place⟩], none⟩ : TokenStream) = stream
  have hlexemes : stream.lexemes = before ++ [⟨.streamEnd, place, place⟩] := by rw [← hstream]
  have hcases := ofTokens_cases stream
  generalize ofTokens stream = d at hcases ⊢
  cases hcases with
  | faulty h => exact .inl h
  | marks => exact .inr (.inl rfl)
  | none => exact .inr (.inl rfl)
  | behind hsplit hmarks =>
    rename_i taken body start stop handles
    cases body with
    | nil => exact .inr (.inl rfl)
    | cons x body =>
      refine .inr (.inr ⟨x.start, ?_⟩)
      rw [content_of_mark (hkind x ?_)]
      rw [← hlexemes, hsplit]
      exact List.mem_append_right _ (List.mem_cons_of_mem _ List.mem_cons_self)
  | bare hsplit htoken =>
    refine .inl (blockNode_of_mark ((hkind _ ?_).resolve_right htoken))
    rw [← hlexemes, hsplit]
    exact List.mem_cons_self

/-- Behind a document nothing but markers of dots leaves no more. -/
theorem documentEnd_of_hasMore (hmarks : ∀ x ∈ before, x.token.isMark = true)
    (h : hasMore (before ++ [⟨.streamEnd, place, place⟩]) = false) :
    ∀ x ∈ before, x.token = .documentEnd := by
  induction before with
  | nil => exact fun x hx => nomatch hx
  | cons x before ih =>
    obtain ⟨hx, hbefore⟩ := List.forall_mem_cons.mp hmarks
    obtain ⟨token, start, stop⟩ := x
    cases token with
    | documentEnd => exact List.forall_mem_cons.mpr ⟨rfl, ih hbefore h⟩
    | version | tagHandle | documentStart => nomatch h
    | _ => nomatch hx

theorem waitsAfter_of_documentEnd {taken ends : List Lexeme} {start stop : Mark}
    (h : ∀ x ∈ ends, x.token = .documentEnd) :
    waitsAfter (taken ++ ⟨.documentStart, start, stop⟩ :: ends) = false := by
  rw [waitsAfter, List.foldl_append, List.foldl_cons]
  show ends.foldl (fun waiting x => x.token.waitsBehind waiting) false = false
  induction ends with
  | nil => rfl
  | cons x ends ih =>
    obtain ⟨hx, hends⟩ := List.forall_mem_cons.mp h
    rw [List.foldl_cons, hx]
    exact ih hends

/-- The end of the text, which is the last token, stands behind a marker. -/
theorem exists_body_of_split {taken body : List Lexeme} {start stop : Mark}
    (h : before ++ [⟨.streamEnd, place, place⟩] = taken ++ ⟨.documentStart, start, stop⟩ :: body) :
    ∃ ends, body = ends ++ [⟨.streamEnd, place, place⟩] ∧
      before = taken ++ ⟨.documentStart, start, stop⟩ :: ends := by
  rcases body.eq_nil_or_concat with rfl | ⟨ends, x, rfl⟩
  · nomatch (List.append_inj' h rfl).2
  · rw [List.concat_eq_append, ← List.cons_append, ← List.append_assoc] at h
    obtain ⟨rfl, hlast⟩ := List.append_inj' h rfl
    obtain rfl := (List.cons.inj hlast).1
    exact ⟨ends, List.concat_eq_append, rfl⟩

/-- If marks make no more than one document, no directive waits behind them. -/
theorem not_waitsAfter (hbefore : ∀ x ∈ before, x.token.isMark = true)
    (hfault : (ofTokens ⟨before ++ [⟨.streamEnd, place, place⟩], none⟩).fault = none)
    (hmore : (ofTokens ⟨before ++ [⟨.streamEnd, place, place⟩], none⟩).more = false) :
    waitsAfter before = false := by
  generalize hstream : (⟨before ++ [⟨.streamEnd, place, place⟩], none⟩ : TokenStream) = stream
    at hfault hmore
  have hlexemes : stream.lexemes = before ++ [⟨.streamEnd, place, place⟩] := by rw [← hstream]
  have hcases := ofTokens_cases stream
  generalize ofTokens stream = d at hcases hfault hmore
  cases hcases with
  | faulty h =>
    rw [hfault] at h
    nomatch h
  | marks h =>
    have hend := h ⟨.streamEnd, place, place⟩ (by simp [hlexemes])
    nomatch hend
  | none hsplit htoken =>
    -- The end of the text comes first, so that nothing is before it.
    cases before with
    | nil => rfl
    | cons y before =>
      obtain rfl := (List.cons.inj (hlexemes.symm.trans hsplit)).1
      have hmark := hbefore y List.mem_cons_self
      rw [htoken] at hmark
      nomatch hmark
  | behind hsplit hmarks =>
    rename_i taken body start stop handles
    rw [hlexemes] at hsplit
    obtain ⟨ends, rfl, rfl⟩ := exists_body_of_split hsplit
    have hends : ∀ x ∈ ends, x.token.isMark = true := fun x hx =>
      hbefore x (List.mem_append_right _ (List.mem_cons_of_mem _ hx))
    have hnone : hasMore (ends ++ [⟨.streamEnd, place, place⟩]) = false := by
      obtain ⟨x, later, hbody⟩ := List.exists_cons_of_ne_nil
        (List.append_ne_nil_of_right_ne_nil ends (List.cons_ne_nil _ []))
      rw [hbody] at hmore ⊢
      have hx : x.token.isMark = true ∨ x.token = .streamEnd :=
        isMark_or_streamEnd hends place x (hbody ▸ List.mem_cons_self)
      rwa [content_of_mark hx] at hmore
    exact waitsAfter_of_documentEnd (documentEnd_of_hasMore hends hnone)
  | bare hsplit htoken =>
    rename_i y rest
    have hkind := isMark_or_streamEnd hbefore place y
      (hlexemes ▸ hsplit ▸ List.mem_cons_self)
    have hstuck : (content TagHandles.standard .blockNode (y :: rest) stream.fault).fault.isSome :=
      blockNode_of_mark (hkind.resolve_right htoken)
    rw [hfault] at hstuck
    nomatch hstuck

/-- A first token that is no mark is the first of that kind. -/
theorem isPart_of_firstOf {x : Lexeme} (hfirst : firstOf (lexeme :: rest) = some x)
    (hx : x.token.isPart = true) (hmark : lexeme.token.isMark = false) :
    lexeme.token.isPart = true := by
  obtain rfl : lexeme = x := by
    simpa [firstOf, hmark] using hfirst
  exact hx

/-- Behind its marker a document is the node, or it is empty and another document comes. -/
theorem content_of_firstOf {body : List Lexeme} {fault : Option Fault} {x : Lexeme}
    (hfirst : firstOf body = some x) (hx : x.token.isPart = true)
    (hend : ∃ y ∈ body, y.token = .streamEnd) :
    (content handles .content body fault).fault.isSome = true ∨
      (content handles .content body fault).more = true ∨
      Grammar.IsNode (content handles .content body fault).events := by
  cases body with
  | nil => cases hfirst
  | cons y body =>
    cases hmark : y.token.isMark with
    | true =>
      rw [content_of_mark (.inl hmark)]
      exact .inr (.inl (hasMore_of_part ⟨x, hfirst, hx⟩))
    | false =>
      rcases content_of_part (.inr rfl) (isPart_of_firstOf hfirst hx hmark) hend with h | h
      · exact .inl h
      · exact .inr (.inr h)

/-- A part of a node, after no more than marks, makes a document that is that node. -/
theorem ofTokens_part (hbefore : ∃ x, firstOf before = some x ∧ x.token.isPart = true) :
    (ofTokens ⟨before ++ [⟨.streamEnd, place, place⟩], none⟩).fault.isSome = true ∨
      (ofTokens ⟨before ++ [⟨.streamEnd, place, place⟩], none⟩).more = true ∨
      Grammar.IsNode (ofTokens ⟨before ++ [⟨.streamEnd, place, place⟩], none⟩).events := by
  generalize hstream : (⟨before ++ [⟨.streamEnd, place, place⟩], none⟩ : TokenStream) = stream
  have hlexemes : stream.lexemes = before ++ [⟨.streamEnd, place, place⟩] := by rw [← hstream]
  obtain ⟨x, hfirst, hx⟩ := hbefore
  have hfirst : firstOf stream.lexemes = some x := by
    rw [hlexemes, firstOf_append, hfirst]
    rfl
  have hend : ∃ y ∈ stream.lexemes, y.token = .streamEnd :=
    ⟨⟨.streamEnd, place, place⟩, by simp [hlexemes], rfl⟩
  have hcases := ofTokens_cases stream
  generalize ofTokens stream = d at hcases ⊢
  cases hcases with
  | faulty h => exact .inl h
  | marks h =>
    obtain ⟨y, hy, htoken⟩ := hend
    have hmark := h y hy
    rw [htoken] at hmark
    cases hmark
  | none hsplit htoken =>
    have hpart := isPart_of_firstOf (hsplit ▸ hfirst) hx (by rw [htoken]; rfl)
    rw [htoken] at hpart
    cases hpart
  | behind hsplit hmarks =>
    rename_i taken body start stop handles
    have hbody : firstOf body = some x := by
      rw [hsplit, firstOf_append, firstOf_eq_none_iff.mpr hmarks] at hfirst
      exact hfirst
    obtain ⟨ends, rfl, -⟩ := exists_body_of_split (hlexemes.symm.trans hsplit)
    have hend' : ∃ z ∈ ends ++ [⟨.streamEnd, place, place⟩], z.token = .streamEnd :=
      ⟨⟨.streamEnd, place, place⟩, by simp, rfl⟩
    exact content_of_firstOf hbody hx hend'
  | bare hsplit htoken =>
    rename_i y rest
    cases hmark : y.token.isMark with
    | true => exact .inl (blockNode_of_mark hmark)
    | false =>
      have hpart := isPart_of_firstOf (hsplit ▸ hfirst) hx hmark
      rcases content_of_part (.inl rfl) hpart (hsplit ▸ hend) with h | h
      · exact .inl h
      · exact .inr (.inr h)

end DocumentEvents

/-! ### Texts -/

namespace Document

variable {text : String}

/-- A text that is read without complaint is read to its end. -/
theorem tokens_of_whole (htail : (ofString text).tail = none)
    (hmore : (ofString text).more = false) :
    ∃ before place, TokenStream.ofString text = ⟨before ++ [⟨.streamEnd, place, place⟩], none⟩ ∧
      TokenStream.Spells text before := by
  obtain ⟨hfault, -⟩ := tail_ofEvents htail
  rcases TokenStream.ofString_spec text with ⟨hfaulty, hend⟩ | hwhole
  · rcases DocumentEvents.ofTokens_faulty hfaulty hend with h | h
    · rw [DocumentEvents.ofString] at hfault
      rw [hfault] at h
      nomatch h
    · have hagain : (DocumentEvents.ofTokens (.ofString text)).more = false := hmore
      rw [hagain] at h
      nomatch h
  · exact hwhole

/-- A silent text that is read without complaint is no document, or an empty one. -/
theorem root_of_silent (htail : (ofString text).tail = none) (hmore : (ofString text).more = false)
    (hsilent : isSilent text.toList = true) :
    (ofString text).root = none ∨
      ∃ place, (ofString text).root = some (.scalar place none .plain []) ∧
        (ofString text).anchors = [] := by
  obtain ⟨hfault, -⟩ := tail_ofEvents htail
  obtain ⟨before, place, htokens, ⟨-, hmarks, -⟩ | ⟨hcontent, -⟩⟩ := tokens_of_whole htail hmore
  · rw [DocumentEvents.ofString, htokens] at hfault
    rw [ofString, DocumentEvents.ofString, htokens] at htail ⊢
    rcases DocumentEvents.ofTokens_marks hmarks with h | h | ⟨place', h⟩
    · rw [hfault] at h
      nomatch h
    · exact .inl (root_of_nil htail h)
    · exact .inr ⟨place', root_of_empty htail h⟩
  · rw [hsilent] at hcontent
    nomatch hcontent

/-- In a silent text that is read without complaint no directive waits for its document. -/
theorem not_isWaiting (htail : (ofString text).tail = none) (hmore : (ofString text).more = false)
    (hsilent : isSilent text.toList = true) : isWaiting text.toList = false := by
  obtain ⟨hfault, -⟩ := tail_ofEvents htail
  obtain ⟨before, place, htokens, ⟨-, hmarks, hwaits⟩ | ⟨hcontent, -⟩⟩ :=
    tokens_of_whole htail hmore
  · rw [DocumentEvents.ofString, htokens] at hfault
    have hagain : (DocumentEvents.ofTokens (.ofString text)).more = false := hmore
    rw [htokens] at hagain
    rw [← hwaits]
    exact DocumentEvents.not_waitsAfter hmarks hfault hagain
  · rw [hsilent] at hcontent
    nomatch hcontent

/-- Any other text that is read without complaint has a root with something in it, or at least with
properties. -/
theorem root_of_not_silent (htail : (ofString text).tail = none)
    (hmore : (ofString text).more = false) (hsilent : isSilent text.toList = false) :
    (ofString text).HoldsContent ∨ (ofString text).OnlyProperties := by
  obtain ⟨hfault, -⟩ := tail_ofEvents htail
  obtain ⟨before, place, htokens, ⟨hcontent, -⟩ | ⟨-, hfirst⟩⟩ := tokens_of_whole htail hmore
  · rw [hsilent] at hcontent
    nomatch hcontent
  · rw [DocumentEvents.ofString, htokens] at hfault
    have hagain : (DocumentEvents.ofTokens (.ofString text)).more = false := hmore
    rw [htokens] at hagain
    rw [ofString, DocumentEvents.ofString, htokens] at htail ⊢
    rcases DocumentEvents.ofTokens_part hfirst with h | h | h
    · rw [hfault] at h
      nomatch h
    · rw [hagain] at h
      nomatch h
    · exact root_of_isNode htail h

end Document

end CollectorTemplate.Yaml
