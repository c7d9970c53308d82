/-
Guards that are left in any order.

A guard restores what was on the thread when it was entered.  Where guards are nested, that is what
was there before the outermost of them in the end.  Where they overlap, a guard may bring back a
context whose own guard was left long ago, and the last one leaves it on the thread.

* `Session.Settles` : steps that enter guards and leave each of them once, in any order;
* `Session.origin` : where what is on the thread comes from, found by going back over the steps;
* `Session.Tracks` : what steps leave on the thread and in the guards that are still held;
* `Session.current?_settled_iff` : when the reconciliation before the steps is back after them.
-/
import CollectorTemplate.Proofs.Entries
import CollectorTemplate.Reconcile.Session

namespace CollectorTemplate

theorem Entries.find?_filter_ne {α : Type} {key k : String} {entries : List (String × α)} :
    find? k (entries.filter (·.1 != key)) = if k = key then none else find? k entries := by
  induction entries with
  | nil =>
    rw [List.filter_nil, find?, ite_self]
  | cons entry entries ih =>
    obtain ⟨l, value⟩ := entry
    by_cases hl : l = key
    · subst hl
      rw [List.filter_cons_of_neg (by simp), ih, find?]
      by_cases hk : k = l
      · rw [if_pos hk, if_pos hk]
      · rw [if_neg hk, if_neg hk, if_neg hk]
    · rw [List.filter_cons_of_pos (by simpa using hl), find?, find?, ih]
      by_cases hk : k = l
      · rw [if_pos hk, if_pos hk, if_neg (hk ▸ hl)]
      · rw [if_neg hk, if_neg hk]

namespace Session

/-! ### Steps of guards -/

/-- Steps that enter guards and leave each of them once, in any order.  `held` are guards that were
entered before and are still to be left. -/
inductive Settles : (held : List String) → List Step → Prop
  | nil : Settles [] []
  | enter {held : List String} {guard : String} {rest : List Step} (label : String)
      (hnew : guard ∉ held) (hrest : Settles (guard :: held) rest) :
      Settles held (.enter label guard :: rest)
  | exit {held : List String} {guard : String} {rest : List Step} (hheld : guard ∈ held)
      (hrest : Settles (held.filter (· != guard)) rest) : Settles held (.exit guard :: rest)

/-- Steps whose guards are left in the reverse order of entering. -/
inductive Nested : (held : List String) → List Step → Prop
  | nil (held : List String) : Nested held []
  | block {held : List String} {guard : String} {inner rest : List Step} (label : String)
      (hnew : guard ∉ held) (hinner : Nested (guard :: held) inner) (hrest : Nested held rest) :
      Nested held (.enter label guard :: (inner ++ .exit guard :: rest))

/-- Where what is on the thread comes from, going back over steps, the latest first: the label of
the context that was entered, none if it was there before all steps.  A guard that is left brings
back what it met; from there on `guard` is the one whose entering is looked for. -/
def origin : (guard : Option String) → List Step → Option String
  | _, [] => none
  | none, .enter label _ :: _ => some label
  | none, .exit guard :: earlier => origin (some guard) earlier
  | some guard, .enter _ other :: earlier =>
    if other = guard then origin none earlier else origin (some guard) earlier
  | guard, _ :: earlier => origin guard earlier

theorem origin_enter {guard other : String} (label : String) (earlier : List Step)
    (h : other ≠ guard) :
    origin (some guard) (.enter label other :: earlier) = origin (some guard) earlier :=
  if_neg h

/-- Nested steps are passed over, since each guard in them is met again where it was entered. -/
theorem origin_of_nested {held : List String} {steps : List Step} (h : Nested held steps)
    (guard : Option String) (hguard : ∀ g ∈ guard, g ∈ held) (earlier : List Step) :
    origin guard (steps.reverse ++ earlier) = origin guard earlier := by
  induction h generalizing guard earlier with
  | nil => rfl
  | @block held inside inner rest label hnew _ _ ihinner ihrest =>
    have hsplit : (Step.enter label inside :: (inner ++ .exit inside :: rest)).reverse ++ earlier =
        rest.reverse ++ (.exit inside :: (inner.reverse ++ (.enter label inside :: earlier))) := by
      simp
    rw [hsplit, ihrest guard hguard]
    cases guard with
    | none =>
      -- The way back meets the end of the block first, and goes on before its beginning.
      rw [origin, ihinner (some inside) (by simp)]
      exact if_pos rfl
    | some g =>
      -- The guard that is looked for was entered before the block.
      have hheld : g ∈ held := hguard g rfl
      show origin (some g) (inner.reverse ++ (.enter label inside :: earlier)) = _
      rw [ihinner (some g) (by simp [hheld])]
      exact origin_enter label earlier fun heq => hnew (heq ▸ hheld)

/-! ### What steps leave -/

/-- What steps, the latest first, leave on the thread, or in a guard. -/
def kept (s : Session) (guard : Option String) (steps : List Step) : Option ReconcileContext :=
  (origin guard steps).elim s.ambient.thread fun label => some (s.context label)

/-- What is known after steps, the latest first, of which the guards `held` are not left yet. -/
structure Tracks (s : Session) (steps : List Step) (held : List String) (t : Session) : Prop where
  thread : t.ambient.thread = s.kept none steps
  task : t.ambient.task = s.ambient.task
  contexts : t.contexts = s.contexts
  guards : ∀ guard, Entries.find? guard t.guards =
    if guard ∈ held then some ⟨s.kept (some guard) steps⟩ else none

variable {s t : Session} {steps earlier : List Step} {held : List String} {guard : String}

theorem tracks_start (h : s.guards = []) : Tracks s [] [] s where
  thread := rfl
  task := rfl
  contexts := rfl
  guards _ := by rw [h]; rfl

theorem Tracks.enter (h : Tracks s earlier held t) (label : String) (hnew : guard ∉ held) :
    Tracks s (.enter label guard :: earlier) (guard :: held) (t.enter label guard) := by
  have hfree : Entries.find? guard t.guards = none := (h.guards guard).trans (if_neg hnew)
  have hambient : (t.enter label guard).ambient = (t.ambient.enter (t.context label)).2 := by
    rw [Session.enter, hfree]
  refine ⟨?_, ?_, h.contexts, fun other => ?_⟩
  · rw [hambient]
    show some (t.context label) = some (s.context label)
    rw [context, h.contexts, context]
  · rw [hambient]
    exact h.task
  · show Entries.find? other (Entries.insert guard ⟨t.ambient.thread⟩ t.guards) = _
    rw [Entries.find?_insert, h.thread, h.guards]
    -- The new guard keeps what was on the thread, and the others keep what they had.
    by_cases hother : other = guard
    · subst hother
      have hmet : s.kept (some other) (.enter label other :: earlier) = s.kept none earlier := by
        rw [kept, origin, if_pos rfl, kept]
      rw [if_pos rfl, if_pos List.mem_cons_self, hmet]
    · have hpassed : s.kept (some other) (.enter label guard :: earlier) =
          s.kept (some other) earlier := by
        rw [kept, origin_enter label earlier (Ne.symm hother), kept]
      rw [if_neg hother, hpassed]
      simp only [List.mem_cons, hother, false_or]

theorem Tracks.exit (h : Tracks s earlier held t) (hheld : guard ∈ held) :
    Tracks s (.exit guard :: earlier) (held.filter (· != guard)) (t.exit guard) := by
  have hfound : Entries.find? guard t.guards = some ⟨s.kept (some guard) earlier⟩ :=
    (h.guards guard).trans (if_pos hheld)
  have hexit : t.exit guard = { t with
      ambient := t.ambient.leave ⟨s.kept (some guard) earlier⟩
      guards := t.guards.filter (·.1 != guard) } := by
    rw [Session.exit, hfound]
  rw [hexit]
  refine ⟨rfl, h.task, h.contexts, fun other => ?_⟩
  have hpassed : s.kept (some other) (.exit guard :: earlier) = s.kept (some other) earlier := rfl
  show Entries.find? other (t.guards.filter (·.1 != guard)) = _
  rw [Entries.find?_filter_ne, h.guards, hpassed]
  by_cases hother : other = guard
  · simp [hother]
  · simp [hother]

theorem run_cons (s : Session) (first : Step) (rest : List Step) :
    (s.run (first :: rest)).2 = ((s.step first).2.run rest).2 := by
  rw [run]

theorem run_append (s : Session) (steps rest : List Step) :
    (s.run (steps ++ rest)).2 = ((s.run steps).2.run rest).2 := by
  induction steps generalizing s with
  | nil => rw [List.nil_append, run]
  | cons first steps ih => rw [List.cons_append, run_cons, run_cons, ih]

/-- Steps that settle all guards leave on the thread what going back over them leads to. -/
theorem Settles.tracks (h : Settles held steps) (ht : Tracks s earlier held t) :
    Tracks s (steps.reverse ++ earlier) [] (t.run steps).2 := by
  induction h generalizing t earlier with
  | nil => exact ht
  | enter label hnew _ ih =>
    rw [run_cons, List.reverse_cons, List.append_assoc]
    exact ih (ht.enter label hnew)
  | exit hheld _ ih =>
    rw [run_cons, List.reverse_cons, List.append_assoc]
    exact ih (ht.exit hheld)

/-- After steps that settle all guards the reconciliation before them is back just if a task runs,
or the way back over the steps leads to their beginning or to a context of the same name.  So it is
wherever guards are nested. -/
theorem current?_settled_iff (h : Settles [] steps) (hguards : s.guards = []) :
    ((s.run steps).2.ambient.current? = s.ambient.current? ↔
      s.ambient.task.isSome ∨ ∀ label ∈ origin none steps.reverse,
        s.ambient.current? = some (s.context label).id) ∧
    (Nested [] steps → (s.run steps).2.ambient.current? = s.ambient.current?) := by
  obtain ⟨hthread, htask, -, -⟩ := h.tracks (tracks_start hguards)
  rw [List.append_nil] at hthread
  have hiff : (s.run steps).2.ambient.current? = s.ambient.current? ↔
      s.ambient.task.isSome ∨ ∀ label ∈ origin none steps.reverse,
        s.ambient.current? = some (s.context label).id := by
    rw [Ambient.current?, Ambient.current?, hthread, htask, kept]
    cases s.ambient.task with
    | some task =>
      -- A task hides the thread, whatever is left there.
      exact iff_of_true rfl (.inl rfl)
    | none =>
      cases origin none steps.reverse with
      | none => exact iff_of_true rfl (.inr fun _ h => absurd h (by simp))
      | some label =>
        simp only [Option.none_or, Option.elim_some, Option.map_some, Option.isSome_none,
          Bool.false_eq_true, false_or, Option.mem_some, forall_eq']
        exact eq_comm
  refine ⟨hiff, fun hnested => hiff.mpr (.inr fun label hlabel => ?_)⟩
  have hback := origin_of_nested hnested none (fun _ h => absurd h (by simp)) []
  rw [List.append_nil] at hback
  rw [hback] at hlabel
  exact absurd hlabel (by simp [origin])

/-- A session with two contexts and no guards. -/
def ofTwoContexts : Session where
  contexts := [("a", ⟨"first", 0⟩), ("b", ⟨"second", 1⟩)]
  families := 2

/-- Nested guards leave nothing behind. -/
theorem current?_settled_of_nested :
    Settles [] [.enter "a" "g", .enter "b" "h", .exit "h", .exit "g"] ∧ ofTwoContexts.guards = [] ∧
      (ofTwoContexts.run
        [.enter "a" "g", .enter "b" "h", .exit "h", .exit "g"]).2.ambient.current? = none := by
  have hsettles : Settles [] [.enter "a" "g", .enter "b" "h", .exit "h", .exit "g"] :=
    .enter "a" (by decide) (.enter "b" (by decide) (.exit (by decide) (.exit (by decide) .nil)))
  have hinner : Nested ["g"] [.enter "b" "h", .exit "h"] :=
    @Nested.block _ _ [] [] "b" (by decide) (.nil _) (.nil _)
  have hnested : Nested [] [.enter "a" "g", .enter "b" "h", .exit "h", .exit "g"] :=
    @Nested.block _ _ [.enter "b" "h", .exit "h"] [] "a" (by decide) hinner (.nil _)
  exact ⟨hsettles, rfl, (current?_settled_iff hsettles rfl).2 hnested⟩

/-- Of two guards that overlap, the second brings back the context of the first. -/
theorem current?_left_behind :
    Settles [] [.enter "a" "g", .enter "b" "h", .exit "g", .exit "h"] ∧ ofTwoContexts.guards = [] ∧
      ofTwoContexts.ambient.current? = none ∧
      (ofTwoContexts.run
        [.enter "a" "g", .enter "b" "h", .exit "g", .exit "h"]).2.ambient.current? = some "first" := by
  have hsettles : Settles [] [.enter "a" "g", .enter "b" "h", .exit "g", .exit "h"] :=
    .enter "a" (by decide) (.enter "b" (by decide) (.exit (by decide) (.exit (by decide) .nil)))
  exact ⟨hsettles, rfl, rfl, by decide +kernel⟩

end Session

end CollectorTemplate
