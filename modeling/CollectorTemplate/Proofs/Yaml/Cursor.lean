/-
How far reading goes.

Every reader takes a part off the front of the text.  Most of them stay in their line meanwhile, and
those that read a token take its first character at least.

* `Cursor.Along` : one cursor is further along in the line of another;
* `Directive.scan_spec` : a directive takes its line and no more;
* `Property.length_name`, `Property.tag_spec`, `Block.length_scan`, `Quoted.length_single`,
  `Quoted.length_double`, `Plain.scan_spec` : what is left of the text after a property or a scalar;
* `Plain.scan_spec` also says that a plain scalar is never empty.
-/
import CollectorTemplate.Yaml.TokenStream
import Mathlib.Data.List.TakeWhile

namespace CollectorTemplate

/-- A chain of steps yields a result through the results of its steps. -/
theorem bind_eq_ok {ε α β : Type} {x : Except ε α} {f : α → Except ε β} {b : β} :
    (x >>= f) = .ok b ↔ ∃ a, x = .ok a ∧ f a = .ok b := by
  cases x with
  | error e => exact ⟨fun h => (nomatch h), fun ⟨_, h, _⟩ => (nomatch h)⟩
  | ok a => exact ⟨fun h => ⟨a, rfl, h⟩, fun ⟨_, h, hf⟩ => by cases h; exact hf⟩

namespace Yaml

namespace Mark

theorem line_past (m : Mark) (text : List Char) : (m.past text).line = m.line := by
  unfold past
  induction text generalizing m with
  | nil => rfl
  | cons c text ih => exact ih (m.next c)

theorem column_past (m : Mark) (text : List Char) :
    (m.past text).column = m.column + text.length := by
  unfold past
  induction text generalizing m with
  | nil => rfl
  | cons c text ih =>
    rw [List.foldl_cons, ih, List.length_cons, Nat.add_comm text.length, ← Nat.add_assoc]
    rfl

end Mark

namespace Cursor

/-- The second cursor is reached from the first without leaving the line. -/
def Along (c d : Cursor) : Prop :=
  ∃ part, c.rest = part ++ d.rest ∧ ∀ x ∈ part, isBreak x = false

namespace Along

variable {c d e : Cursor}

theorem refl (c : Cursor) : c.Along c := ⟨[], rfl, fun _ h => absurd h (by simp)⟩

theorem trans (h : c.Along d) (h' : d.Along e) : c.Along e := by
  obtain ⟨part, hrest, hpart⟩ := h
  obtain ⟨part', hrest', hpart'⟩ := h'
  refine ⟨part ++ part', by rw [hrest, hrest', List.append_assoc], fun x hx => ?_⟩
  rcases List.mem_append.mp hx with hx | hx
  · exact hpart x hx
  · exact hpart' x hx

theorem length_le (h : c.Along d) : d.rest.length ≤ c.rest.length := by
  obtain ⟨part, hrest, -⟩ := h
  rw [hrest, List.length_append]
  exact Nat.le_add_left _ _

end Along

theorem along_dropWhile {p : Char → Bool} (h : ∀ x, p x = true → isBreak x = false) (c : Cursor) :
    c.Along (c.dropWhile p) :=
  ⟨c.rest.takeWhile p, List.takeWhile_append_dropWhile.symm,
    fun x hx => h x (List.mem_takeWhile_imp hx)⟩

theorem along_next {c : Cursor} (h : ∀ x ∈ c.rest.head?, isBreak x = false) : c.Along c.next := by
  unfold next
  split
  · rename_i x rest hrest
    refine ⟨[x], by rw [hrest]; rfl, fun y hy => ?_⟩
    rw [List.mem_singleton.mp hy]
    exact h x (by rw [hrest]; rfl)
  · exact .refl c

theorem along_next_of_peek {c : Cursor} {x : Char} (h : c.peek? = some x) (hx : isBreak x = false) :
    c.Along c.next := by
  refine along_next fun y hy => ?_
  obtain rfl : x = y := Option.some.inj (h.symm.trans hy)
  exact hx

theorem along_forward {c : Cursor} {n : Nat} (h : ∀ x ∈ c.rest.take n, isBreak x = false) :
    c.Along (c.forward n) :=
  ⟨c.rest.take n, (List.take_append_drop n c.rest).symm, h⟩

theorem along_skipBlanks (c : Cursor) : c.Along c.skipBlanks := by
  refine along_dropWhile (fun x hx => ?_) c
  rcases (by simpa [isBlank] using hx : x = ' ' ∨ x = '\t') with rfl | rfl <;> rfl

theorem along_skipComment (c : Cursor) : c.Along c.skipComment := by
  unfold skipComment
  split
  · exact along_dropWhile (fun x hx => by simpa using hx) c
  · exact .refl c

theorem next_rest {c : Cursor} {x : Char} {after : List Char} (hc : c.rest = x :: after) :
    c.next.rest = after := by
  unfold next
  rw [hc]

theorem length_next (c : Cursor) : c.next.rest.length ≤ c.rest.length := by
  unfold next
  split
  · rename_i x rest hrest
    rw [hrest]
    exact Nat.le_succ _
  · exact Nat.le_refl _

theorem length_dropWhile (p : Char → Bool) (c : Cursor) :
    (c.dropWhile p).rest.length ≤ c.rest.length :=
  (List.dropWhile_suffix p).length_le

theorem length_newline (c : Cursor) : c.newline.rest.length ≤ c.rest.length := by
  unfold newline
  split
  · rename_i rest hrest
    rw [hrest]
    exact (Nat.le_succ _).trans (Nat.le_succ _)
  · rename_i b rest hrest
    split
    · rw [hrest]
      exact Nat.le_succ _
    · exact Nat.le_refl _
  · exact Nat.le_refl _

/-- Names, digits and the characters of tags are no line breaks. -/
theorem not_isBreak_of {p : Char → Bool}
    (h : ['\r', '\n', '\u0085', '\u2028', '\u2029'].any p = false) {c : Char}
    (hc : p c = true) : isBreak c = false := by
  rw [← Bool.not_eq_true]
  intro hbreak
  have hmem : c ∈ ['\r', '\n', '\u0085', '\u2028', '\u2029'] := by
    simpa [isBreak, or_assoc] using hbreak
  exact List.any_eq_false.mp h c hmem hc

end Cursor

open Cursor

theorem not_isBreak_of_isWord {c : Char} (h : isWord c = true) : isBreak c = false :=
  not_isBreak_of (by decide) h

theorem not_isBreak_of_isBlank {c : Char} (h : isBlank c = true) : isBreak c = false :=
  not_isBreak_of (by decide) h

theorem not_isBreak_of_isUri {flow : Bool} {c : Char} (h : isUri flow c = true) :
    isBreak c = false := by
  cases flow
  · exact not_isBreak_of (by decide) h
  · exact not_isBreak_of (by decide) h

theorem not_isBreak_of_isDigit {c : Char} (h : c.isDigit = true) : isBreak c = false :=
  not_isBreak_of (by decide) h

theorem not_isBreak_of_hexDigit? {c : Char} {n : Nat} (h : Text.hexDigit? c = some n) :
    isBreak c = false :=
  not_isBreak_of (p := fun c => (Text.hexDigit? c).isSome) (by decide) (by simp [h])

/-! ### Properties -/

namespace Property

/-- An escaped octet takes three characters. -/
theorem along_octet? {c : Cursor} {n : Nat} (h : octet? c.rest = some n) :
    c.Along (c.forward 3) := by
  refine along_forward fun x hx => ?_
  unfold octet? at h
  split at h
  · rename_i high low rest hrest
    -- Both digits are found, or there is no octet.
    simp only [Option.bind_eq_bind, Option.pure_def, Option.bind_eq_some_iff] at h
    obtain ⟨m, hhigh, k, hlow, -⟩ := h
    rw [hrest] at hx
    rcases (by simpa using hx : x = '%' ∨ x = high ∨ x = low) with rfl | rfl | rfl
    · rfl
    · exact not_isBreak_of_hexDigit? hhigh
    · exact not_isBreak_of_hexDigit? hlow
  · exact absurd h (by simp)

theorem along_trailingOctets {context : Context} {start : Mark} {count : Nat} {c d : Cursor}
    {octets : List Nat} (h : trailingOctets context start count c = .ok (octets, d)) :
    c.Along d := by
  induction count generalizing c octets with
  | zero =>
    obtain ⟨-, rfl⟩ := Prod.mk.inj (Except.ok.inj h)
    exact .refl c
  | succ count ih =>
    unfold trailingOctets at h
    split at h
    · exact absurd h (by simp)
    · rename_i octet hoctet
      split at h
      · obtain ⟨⟨rest, stop⟩, hrest, hstop⟩ := bind_eq_ok.mp h
        obtain ⟨-, rfl⟩ := Prod.mk.inj (Except.ok.inj hstop)
        exact (along_octet? hoctet).trans (ih hrest)
      · exact absurd h (by simp)

theorem along_escaped {context : Context} {start : Mark} {c d : Cursor} {x : Option Char}
    (h : escaped context start c = .ok (x, d)) : c.Along d := by
  unfold escaped at h
  split at h
  · exact absurd h (by simp)
  · rename_i lead hlead
    split at h
    · exact absurd h (by simp)
    · obtain ⟨⟨octets, stop⟩, hoctets, hstop⟩ := bind_eq_ok.mp h
      obtain ⟨-, rfl⟩ := Prod.mk.inj (Except.ok.inj hstop)
      exact (along_octet? hlead).trans (along_trailingOctets hoctets)

theorem along_uriFrom {flow : Bool} {context : Context} {start : Mark} {limit : Nat}
    {c d : Cursor} {text found : TagText}
    (h : uriFrom flow context start limit c text = .ok (found, d)) : c.Along d := by
  induction limit generalizing c text with
  | zero =>
    obtain ⟨-, rfl⟩ := Prod.mk.inj (Except.ok.inj h)
    exact .refl c
  | succ limit ih =>
    unfold uriFrom at h
    split at h
    · obtain ⟨-, rfl⟩ := Prod.mk.inj (Except.ok.inj h)
      exact .refl c
    · rename_i x rest hrest
      split at h
      · obtain ⟨⟨y, stop⟩, hescaped, hfrom⟩ := bind_eq_ok.mp h
        exact (along_escaped hescaped).trans (ih hfrom)
      · split at h
        · rename_i huri
          refine (along_next fun y hy => ?_).trans (ih h)
          obtain rfl : x = y := by simpa [hrest] using hy
          exact not_isBreak_of_isUri huri
        · obtain ⟨-, rfl⟩ := Prod.mk.inj (Except.ok.inj h)
          exact .refl c

theorem along_uri {flow : Bool} {context : Context} {start : Mark} {head : List Char}
    {c d : Cursor} {found : TagText} (h : uri flow context start head c = .ok (found, d)) :
    c.Along d := by
  obtain ⟨⟨text, stop⟩, hfrom, hrest⟩ := bind_eq_ok.mp h
  dsimp only at hrest
  split at hrest
  · nomatch hrest
  · obtain ⟨-, rfl⟩ := Prod.mk.inj (Except.ok.inj hrest)
    exact along_uriFrom hfrom

theorem along_handle {context : Context} {start : Mark} {c d : Cursor} {found : List Char}
    (h : handle context start c = .ok (found, d)) : c.Along d := by
  unfold handle at h
  split at h
  · rename_i hpeek
    have hword : c.Along (c.next.dropWhile isWord) :=
      (along_next_of_peek hpeek rfl).trans (along_dropWhile (fun _ => not_isBreak_of_isWord) _)
    dsimp only at h
    split at h
    · rename_i hclosed
      obtain ⟨-, rfl⟩ := Prod.mk.inj (Except.ok.inj h)
      exact hword.trans (along_next_of_peek hclosed rfl)
    · obtain ⟨-, rfl⟩ := Prod.mk.inj (Except.ok.inj h)
      exact hword
  · exact absurd h (by simp)

theorem length_name {context : Context} {c d : Cursor} {found after : List Char} {x : Char}
    (hc : c.rest = x :: after) (h : name context c = .ok (found, d)) :
    d.rest.length ≤ after.length := by
  unfold name at h
  dsimp only at h
  split at h
  · nomatch h
  · obtain ⟨-, rfl⟩ := Prod.mk.inj (Except.ok.inj h)
    rw [← next_rest hc]
    exact length_dropWhile _ _

theorem length_handle {context : Context} {start : Mark} {c d : Cursor} {found after : List Char}
    {x : Char} (hc : c.rest = x :: after) (h : handle context start c = .ok (found, d)) :
    d.rest.length ≤ after.length := by
  have hword : (c.next.dropWhile isWord).rest.length ≤ after.length := by
    rw [← next_rest hc]
    exact length_dropWhile _ _
  unfold handle at h
  split at h
  · dsimp only at h
    split at h
    · obtain ⟨-, rfl⟩ := Prod.mk.inj (Except.ok.inj h)
      exact (length_next _).trans hword
    · obtain ⟨-, rfl⟩ := Prod.mk.inj (Except.ok.inj h)
      exact hword
  · nomatch h

/-- A tag takes its indicator at least. -/
theorem tag_spec {flow : Bool} {c d : Cursor} {x : Char} {after : List Char} {token : Token}
    (hc : c.rest = x :: after) (h : tag flow c = .ok (token, d)) :
    d.rest.length ≤ after.length ∧ ∃ handle suffix, token = .tag handle suffix := by
  unfold tag at h
  extract_lets finish at h
  -- The two forms of a tag share what comes after them.
  have hfinish : ∀ r, finish r = .ok (token, d) → r.2.rest.length ≤ after.length →
      d.rest.length ≤ after.length ∧ ∃ handle suffix, token = .tag handle suffix := by
    rintro ⟨⟨found, suffix⟩, stop⟩ h hstop
    dsimp only [finish] at h
    split at h
    · obtain ⟨rfl, rfl⟩ := Prod.mk.inj (Except.ok.inj h)
      exact ⟨hstop, found, suffix, rfl⟩
    · nomatch h
  split at h
  · obtain ⟨⟨text, close⟩, huri, h⟩ := bind_eq_ok.mp h
    dsimp only at h
    split at h
    · refine hfinish (([], text), close.next) h ?_
      refine (length_next close).trans ((along_uri huri).length_le.trans ?_)
      simp [Cursor.forward, hc]
    · nomatch h
  · obtain ⟨⟨found, mid⟩, hhandle, h⟩ := bind_eq_ok.mp h
    have hmid : mid.rest.length ≤ after.length := length_handle hc hhandle
    dsimp only at h
    split at h
    · obtain ⟨⟨text, stop⟩, huri, h⟩ := bind_eq_ok.mp h
      exact hfinish ((found, text), stop) h ((along_uri huri).length_le.trans hmid)
    · obtain ⟨⟨text, stop⟩, huri, h⟩ := bind_eq_ok.mp h
      exact hfinish (split text, stop) h ((along_uri huri).length_le.trans hmid)

end Property

/-! ### Directives -/

namespace Directive

theorem along_name {start : Mark} {c d : Cursor} {found : List Char}
    (h : name start c = .ok (found, d)) : c.Along d := by
  unfold name at h
  dsimp only at h
  split at h
  · exact absurd h (by simp)
  · split at h
    · obtain ⟨-, rfl⟩ := Prod.mk.inj (Except.ok.inj h)
      exact along_dropWhile (fun _ => not_isBreak_of_isWord) _
    · exact absurd h (by simp)

theorem along_number {start : Mark} {c d : Cursor} {n : Nat} (h : number start c = .ok (n, d)) :
    c.Along d := by
  unfold number at h
  dsimp only at h
  split at h
  · exact absurd h (by simp)
  · split at h
    · exact absurd h (by simp)
    · obtain ⟨-, rfl⟩ := Prod.mk.inj (Except.ok.inj h)
      exact along_dropWhile (fun _ => not_isBreak_of_isDigit) _

theorem along_version {start : Mark} {c d : Cursor} {token : Token}
    (h : version start c = .ok (token, d)) :
    c.Along d ∧ ∃ major minor, token = .version major minor := by
  obtain ⟨⟨major, dot⟩, hmajor, hdot⟩ := bind_eq_ok.mp h
  dsimp only at hdot
  split at hdot
  · rename_i hpeek
    obtain ⟨⟨minor, stop⟩, hminor, hstop⟩ := bind_eq_ok.mp hdot
    obtain ⟨rfl, rfl⟩ := Prod.mk.inj (Except.ok.inj hstop)
    refine ⟨?_, major, minor, rfl⟩
    exact (along_skipBlanks c).trans ((along_number hmajor).trans
      ((along_next_of_peek hpeek rfl).trans (along_number hminor)))
  · nomatch hdot

theorem along_tagHandle {start : Mark} {c d : Cursor} {token : Token}
    (h : tagHandle start c = .ok (token, d)) :
    c.Along d ∧ ∃ handle expansion, token = .tagHandle handle expansion := by
  obtain ⟨⟨found, gap⟩, hhandle, hgap⟩ := bind_eq_ok.mp h
  dsimp only at hgap
  split at hgap
  · nomatch hgap
  · split at hgap
    · nomatch hgap
    · obtain ⟨⟨expansion, stop⟩, huri, hstop⟩ := bind_eq_ok.mp hgap
      dsimp only at hstop
      split at hstop
      · obtain ⟨rfl, rfl⟩ := Prod.mk.inj (Except.ok.inj hstop)
        refine ⟨?_, found, expansion, rfl⟩
        exact (along_skipBlanks c).trans ((Property.along_handle hhandle).trans
          ((along_skipBlanks gap).trans (Property.along_uri huri)))
      · nomatch hstop

theorem lineEnd_spec {start : Mark} {c next : Cursor} (h : lineEnd start c = .ok next) :
    ∃ stop, c.Along stop ∧ stop.atLineEnd = true ∧ next = stop.newline := by
  unfold lineEnd at h
  dsimp only at h
  split at h
  · rename_i hend
    exact ⟨_, (along_skipBlanks c).trans (along_skipComment _), hend, (Except.ok.inj h).symm⟩
  · nomatch h

/-- Whether a token is a directive. -/
def IsDirective (token : Token) : Prop :=
  (∃ major minor, token = .version major minor) ∨
    ∃ handle expansion, token = .tagHandle handle expansion

/-- A directive takes the rest of its line, and the break behind it if there is one. -/
theorem scan_spec {c next : Cursor} {lexeme : Lexeme} {rest : List Char} (hc : c.rest = '%' :: rest)
    (h : scan c = .ok (lexeme, next)) :
    IsDirective lexeme.token ∧
      ∃ stop, Along ⟨rest, c.next.mark⟩ stop ∧ stop.atLineEnd = true ∧ next = stop.newline := by
  have hnext : c.next = ⟨rest, c.next.mark⟩ := by
    unfold Cursor.next
    rw [hc]
  obtain ⟨⟨found, named⟩, hname, h⟩ := bind_eq_ok.mp h
  -- Behind its name, each directive goes on in the line and then has to end it.
  have hend : ∀ {start after}, named.Along after → lineEnd start after = .ok next →
      ∃ stop, Along ⟨rest, c.next.mark⟩ stop ∧ stop.atLineEnd = true ∧ next = stop.newline := by
    intro start after halong hline
    obtain ⟨stop, hstop, hend, hafter⟩ := lineEnd_spec hline
    rw [← hnext]
    exact ⟨stop, (along_name hname).trans (halong.trans hstop), hend, hafter⟩
  dsimp only at h
  split at h
  · obtain ⟨⟨token, after⟩, hversion, h⟩ := bind_eq_ok.mp h
    obtain ⟨_, hline, h⟩ := bind_eq_ok.mp h
    obtain ⟨rfl, rfl⟩ := Prod.mk.inj (Except.ok.inj h)
    obtain ⟨halong, htoken⟩ := along_version hversion
    exact ⟨.inl htoken, hend halong hline⟩
  · split at h
    · obtain ⟨⟨token, after⟩, hhandle, h⟩ := bind_eq_ok.mp h
      obtain ⟨_, hline, h⟩ := bind_eq_ok.mp h
      obtain ⟨rfl, rfl⟩ := Prod.mk.inj (Except.ok.inj h)
      obtain ⟨halong, htoken⟩ := along_tagHandle hhandle
      exact ⟨.inr htoken, hend halong hline⟩
    · nomatch h

end Directive

/-! ### Scalars -/

namespace Block

theorem length_header {c d : Cursor} {start : Mark} {found : Header}
    (h : header c start = .ok (found, d)) : d.rest.length ≤ c.rest.length := by
  unfold header at h
  -- The digit may come before the sign of chomping or behind it.
  extract_lets digit at h
  have hdigit : ∀ chomping e found d, digit chomping e = .ok (found, d) →
      d.rest.length ≤ e.rest.length := by
    intro chomping e found d h
    dsimp only [digit] at h
    grind [length_next]
  split at h
  · obtain ⟨-, rfl⟩ := Prod.mk.inj (Except.ok.inj h)
    exact Nat.le_refl _
  · split at h
    · exact (hdigit _ _ _ _ h).trans (length_next c)
    · obtain ⟨⟨own, body⟩, hown, h⟩ := bind_eq_ok.mp h
      refine le_trans ?_ (hdigit _ _ _ _ hown)
      dsimp only at h
      split at h
      · split at h
        · obtain ⟨-, rfl⟩ := Prod.mk.inj (Except.ok.inj h)
          exact length_next body
        · obtain ⟨-, rfl⟩ := Prod.mk.inj (Except.ok.inj h)
          exact Nat.le_refl _
      · obtain ⟨-, rfl⟩ := Prod.mk.inj (Except.ok.inj h)
        exact Nat.le_refl _

theorem length_headerEnd {c d : Cursor} {start : Mark} (h : headerEnd c start = .ok d) :
    d.rest.length ≤ c.rest.length := by
  unfold headerEnd at h
  dsimp only at h
  split at h
  · obtain rfl := Except.ok.inj h
    exact (length_newline _).trans
      ((along_skipBlanks c).trans (along_skipComment _)).length_le
  · nomatch h

theorem length_scanFrom {folded : Bool} {indent : Int} {start : Mark} {chars : List Char}
    {mark : Mark} {phase : Phase} {p q : Partial} {d : Cursor}
    (h : scanFrom folded indent start chars mark phase p = .ok (q, d)) :
    d.rest.length ≤ chars.length := by
  fun_induction scanFrom folded indent start chars mark phase p <;> grind

theorem length_scan {folded : Bool} {indent : Int} {c d : Cursor} {x : Char}
    {after text : List Char} (hc : c.rest = x :: after)
    (h : scan folded indent c = .ok (text, d)) : d.rest.length ≤ after.length := by
  obtain ⟨⟨found, line⟩, hheader, h⟩ := bind_eq_ok.mp h
  obtain ⟨body, hend, h⟩ := bind_eq_ok.mp h
  obtain ⟨⟨q, stop⟩, hfrom, h⟩ := bind_eq_ok.mp h
  obtain ⟨-, rfl⟩ := Prod.mk.inj (Except.ok.inj h)
  rw [← next_rest hc]
  exact (length_scanFrom hfrom).trans ((length_headerEnd hend).trans (length_header hheader))

end Block

namespace Quoted

theorem length_singleFrom {start : Mark} {chars : List Char} {mark : Mark} {p q : Partial}
    {d : Cursor} (h : singleFrom start chars mark p = .ok (q, d)) :
    d.rest.length ≤ chars.length := by
  fun_induction singleFrom start chars mark p <;> grind

theorem length_doubleFrom {start : Mark} {chars : List Char} {mark : Mark} {p q : Partial}
    {d : Cursor} (h : doubleFrom start chars mark p = .ok (q, d)) :
    d.rest.length ≤ chars.length := by
  fun_induction doubleFrom start chars mark p
  all_goals
    try simp only [List.length_cons]
    grind [bind_eq_ok]

theorem length_single {c d : Cursor} {x : Char} {after text : List Char} (hc : c.rest = x :: after)
    (h : single c = .ok (text, d)) : d.rest.length ≤ after.length := by
  obtain ⟨⟨q, stop⟩, hfrom, h⟩ := bind_eq_ok.mp h
  obtain ⟨-, rfl⟩ := Prod.mk.inj (Except.ok.inj h)
  rw [hc] at hfrom
  exact length_singleFrom hfrom

theorem length_double {c d : Cursor} {x : Char} {after text : List Char} (hc : c.rest = x :: after)
    (h : double c = .ok (text, d)) : d.rest.length ≤ after.length := by
  obtain ⟨⟨q, stop⟩, hfrom, h⟩ := bind_eq_ok.mp h
  obtain ⟨-, rfl⟩ := Prod.mk.inj (Except.ok.inj h)
  rw [hc] at hfrom
  exact length_doubleFrom hfrom

end Quoted

namespace Plain

theorem length_scanFrom {flow : Bool} {indent : Int} {start : Mark} {chars : List Char}
    {mark : Mark} {p q : Partial} {d : Cursor}
    (h : scanFrom flow indent start chars mark p = .ok (q, d)) :
    d.rest.length ≤ chars.length := by
  fun_induction scanFrom flow indent start chars mark p <;> grind

theorem text_scanFrom {flow : Bool} {indent : Int} {start : Mark} {chars : List Char}
    {mark : Mark} {p q : Partial} {d : Cursor}
    (h : scanFrom flow indent start chars mark p = .ok (q, d)) (hp : p.text ≠ []) :
    q.text ≠ [] := by
  fun_induction scanFrom flow indent start chars mark p <;> grind

/-- A character that a plain scalar may begin with does not end it again. -/
theorem not_isEnd_of_startsPlain {flow : Bool} {x : Char} {after : List Char}
    (h : Lexing.startsPlain flow x after = true) :
    isBreak x = false ∧ isBlank x = false ∧ isEnd flow x after = false := by
  unfold Lexing.startsPlain at h
  split at h
  · rename_i hdash
    obtain rfl : x = '-' := by simpa using hdash
    refine ⟨rfl, rfl, ?_⟩
    simp [isEnd, isFlowIndicator]
  · split at h
    · rename_i hmark
      obtain ⟨rfl, hgap⟩ : flow = false ∧ gapAhead after = false := by simpa using h
      rcases (by simpa using hmark : x = '?' ∨ x = ':') with rfl | rfl
      · exact ⟨rfl, rfl, rfl⟩
      · refine ⟨rfl, rfl, ?_⟩
        simp [isEnd, hgap]
    · simp only [Bool.not_eq_true', Bool.or_eq_false_iff, isSpacing] at h
      refine ⟨by grind, by grind, ?_⟩
      simp only [isEnd, isFlowIndicator]
      grind

/-- A plain scalar takes its first character, and that is part of its text. -/
theorem scan_spec {flow : Bool} {indent : Int} {c d : Cursor} {x : Char} {after text : List Char}
    {broken : Bool} (hc : c.rest = x :: after) (hx : Lexing.startsPlain flow x after = true)
    (h : scan flow indent c = .ok (text, d, broken)) :
    text ≠ [] ∧ d.rest.length ≤ after.length := by
  obtain ⟨hbreak, hblank, hend⟩ := not_isEnd_of_startsPlain hx
  obtain ⟨⟨q, stop⟩, hfrom, h⟩ := bind_eq_ok.mp h
  obtain ⟨rfl, rfl, -⟩ : q.text.reverse = text ∧ stop = d ∧ _ := by
    simpa using Except.ok.inj h
  -- The first turn of the loop takes the first character; what is left of the loop only adds to it.
  rw [hc, scanFrom] at hfrom
  · simp only [hbreak, hblank, hend, isStop, Bool.false_eq_true, List.isEmpty_nil, Bool.not_true,
      Bool.or_self, Bool.false_and, if_false] at hfrom
    split at hfrom
    · nomatch hfrom
    · have htext : q.text ≠ [] := text_scanFrom hfrom (by simp)
      exact ⟨by simpa using htext, length_scanFrom hfrom⟩
  · rintro rest rfl
    simp [isBreak] at hbreak

end Plain

end Yaml

end CollectorTemplate
