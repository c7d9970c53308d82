/-
Between two tokens of written text.

Outside flow collections, and with no key pending, the state of the reader is its place, the tokens
told so far and the columns of the open collections.  Reading on from one such state to another is
what the writer's text is made for.

* `Lexing.resting` : these states;
* `Lexing.Reaches` : white space leads to the next token;
* `Lexing.take_dash`, `Lexing.take_question`, `Lexing.take_colon` : the indicators of collections;
* `Lexing.Reaches.close` : a collection ends in front of a token that is less indented.
-/
import CollectorTemplate.Proofs.Yaml.Place

namespace CollectorTemplate.Yaml

open Scalar

theorem ok_bind {ε α β : Type} (a : α) (f : α → Except ε β) : (Except.ok a >>= f) = f a := rfl

namespace Lexing

variable {s r : Lexing} {cursor : Cursor} {lexemes : List Lexeme} {indent : Int}
  {indents : List Int} {keyAllowed : Bool} {mark : Mark} {rest after : List Char} {k : Nat}

/-- The state in which nothing is pending and no flow collection is open. -/
def resting (cursor : Cursor) (lexemes : List Lexeme) (indent : Int) (indents : List Int)
    (keyAllowed : Bool) : Lexing :=
  { cursor, lexemes, count := lexemes.length, indent, indents, keyAllowed }

/-- The key that may begin at the place, if one is allowed. -/
def keyHere (lexemes : List Lexeme) (indent : Int) (keyAllowed : Bool) (mark : Mark) :
    Option PendingKey :=
  if keyAllowed then some ⟨lexemes.length, mark, indent == mark.column⟩ else none

/-- Further in than the collection around it no key is required. -/
theorem keyHere_spec (lexemes : List Lexeme) (keyAllowed : Bool) (h : indent < mark.column) :
    ∀ key ∈ keyHere lexemes indent keyAllowed mark, key.required = false ∧ key.place = mark := by
  intro key hkey
  cases keyAllowed with
  | false => nomatch hkey
  | true =>
    obtain rfl := Option.some.inj hkey
    exact ⟨beq_eq_false_iff_ne.mpr (Int.ne_of_lt h), rfl⟩

theorem savePending_resting (cursor : Cursor) :
    (resting cursor lexemes indent indents keyAllowed).savePending =
      .ok { resting cursor lexemes indent indents keyAllowed with
        pending := keyHere lexemes indent keyAllowed cursor.mark } := by
  cases keyAllowed with
  | true => rfl
  | false => rfl

/-! ### White space -/

/-- Up to the next token, and out of the collections that end there. -/
def prepare (s : Lexing) : Except Fault Lexing := do
  let s ← (s.skipSpace (s.cursor.rest.length + 1)).dropStale
  return s.closeBlocks s.mark.column

/-- Over the token that begins here. -/
def take (s : Lexing) : Except Fault Lexing := do
  let s ←
    match s.cursor.rest with
    | [] => s.endText
    | c :: after => s.token c after
  s.dropStale

theorem step_of_prepare (h : s.prepare = .ok r) : s.step = r.take := by
  obtain ⟨u, hu, h⟩ := bind_eq_ok.mp h
  obtain rfl := Except.ok.inj h
  rw [step, hu]
  rfl

/-- Spaces are read over, up to what is neither white space nor a comment. -/
theorem pastBlanks_spaces (hcursor : s.cursor = ⟨spaces k ++ rest, mark⟩)
    (hrest : ∀ c ∈ rest.head?, isBlank c = false ∧ c ≠ '#' ∧ c ≠ '\ufeff') :
    s.pastBlanks = ⟨rest, mark.across (spaces k)⟩ := by
  have hmark : s.pastMark = s.cursor := by
    rw [pastMark, if_neg]
    rw [hcursor]
    cases k with
    | succ k => simp [Cursor.peek?, spaces, List.replicate_succ]
    | zero =>
      cases rest with
      | nil => simp [Cursor.peek?, spaces]
      | cons c rest => simp [Cursor.peek?, spaces, (hrest c rfl).2.2]
  have hspaces (p : Char → Bool) (hp : p ' ' = true) : ∀ c ∈ spaces k, p c = true := by
    intro c hc
    rwa [List.eq_of_mem_replicate hc]
  have hline : ∀ c ∈ spaces k, isBreak c = false := by
    intro c hc
    rw [List.eq_of_mem_replicate hc]
    rfl
  rw [pastBlanks, hmark, hcursor, Cursor.dropWhile]
  cases rest with
  | nil =>
    simp only [List.append_nil]
    rw [← List.append_nil (spaces k), List.dropWhile_append_of_pos (hspaces _ rfl),
      List.takeWhile_append_of_pos (hspaces _ rfl), List.takeWhile_nil, List.append_nil,
      Mark.past_eq_across hline]
    rfl
  | cons c rest =>
    obtain ⟨hblank, hsharp, -⟩ := hrest c rfl
    have hstop : (c == ' ' || ((s.inFlow || !s.keyAllowed) && c == '\t')) = false := by
      simp only [isBlank, Bool.or_eq_false_iff] at hblank
      simp [hblank]
    rw [List.dropWhile_append_of_pos (hspaces _ rfl), List.takeWhile_append_of_pos (hspaces _ rfl),
      List.dropWhile_cons_of_neg (by rw [hstop]; exact Bool.false_ne_true),
      List.takeWhile_cons_of_neg (by rw [hstop]; exact Bool.false_ne_true), List.append_nil,
      Mark.past_eq_across hline, Cursor.skipComment, if_neg (by simp [Cursor.peek?, hsharp])]

/-- Spaces in front of a token, on its line. -/
theorem skipSpace_spaces (hcursor : s.cursor = ⟨spaces k ++ rest, mark⟩) (hrest : Begins rest)
    (limit : Nat) :
    s.skipSpace (limit + 1) = { s with cursor := ⟨rest, mark.across (spaces k)⟩ } := by
  have hblanks := pastBlanks_spaces hcursor fun c hc => by
    obtain ⟨hspacing, hsharp, hmark⟩ := hrest c hc
    exact ⟨(Bool.or_eq_false_iff.mp hspacing).1, hsharp, hmark⟩
  rw [skipSpace_succ, hblanks]
  cases rest with
  | nil => rfl
  | cons c rest =>
    obtain ⟨hspacing, -⟩ := hrest c rfl
    simp [(Bool.or_eq_false_iff.mp hspacing).2]

/-- The end of a line and the spaces in front of a token. -/
theorem skipSpace_line (hcursor : s.cursor = ⟨'\n' :: (spaces k ++ rest), mark⟩)
    (hrest : Begins rest) (houter : s.outer = []) (limit : Nat) :
    s.skipSpace (limit + 2) =
      { s with cursor := ⟨rest, mark.across ('\n' :: spaces k)⟩, keyAllowed := true } := by
  have hblanks : s.pastBlanks = ⟨'\n' :: (spaces k ++ rest), mark⟩ :=
    pastBlanks_spaces (k := 0) hcursor fun c hc => by
      obtain rfl := Option.some.inj hc
      decide
  have hnewline : Cursor.newline ⟨'\n' :: (spaces k ++ rest), mark⟩ =
      ⟨spaces k ++ rest, mark.newline '\n'⟩ := rfl
  rw [skipSpace_succ, hblanks]
  simp only [show isBreak '\n' = true from rfl, if_true, hnewline]
  rw [skipSpace_spaces rfl hrest, Mark.across_break rfl]
  simp [inFlow, houter]

/-! ### Reaching a token -/

/-- White space leads to the next token, where nothing is pending any more. -/
def Reaches (s r : Lexing) : Prop :=
  s.ended = false ∧ s.prepare = .ok (r.closeBlocks r.mark.column)

theorem closeBlocks_of_le {column : Int} (h : s.indent ≤ column) : s.closeBlocks column = s := by
  unfold closeBlocks
  split
  · rfl
  · unfold closeBlocks.go
    rw [if_neg (Int.not_lt.mpr h)]

theorem Reaches.step_eq (h : Reaches s r) (hindent : r.indent ≤ r.mark.column) :
    s.step = r.take := by
  refine step_of_prepare (h.2.trans ?_)
  rw [closeBlocks_of_le hindent]

/-- A collection ends in front of a token that is less indented than it. -/
theorem Reaches.close {column : Int}
    (h : Reaches s (resting ⟨rest, mark⟩ lexemes column (indent :: indents) keyAllowed))
    (hcolumn : mark.column < column) :
    Reaches s
      (resting ⟨rest, mark⟩ (⟨.blockEnd, mark, mark⟩ :: lexemes) indent indents keyAllowed) := by
  refine ⟨h.1, h.2.trans (congrArg _ ?_)⟩
  have hgo : closeBlocks.go mark.column (indent :: indents)
      (resting ⟨rest, mark⟩ lexemes column (indent :: indents) keyAllowed) =
      closeBlocks.go mark.column indents
        (resting ⟨rest, mark⟩ (⟨.blockEnd, mark, mark⟩ :: lexemes) indent indents keyAllowed) := by
    rw [closeBlocks.go, if_pos (by exact hcolumn)]
    rfl
  exact hgo

/-- No key can begin any more at a place on an earlier line. -/
theorem dropStale_of_line {key : PendingKey} (hdemanded : s.demanded = none)
    (hpending : s.pending = some key) (hrequired : key.required = false)
    (hline : key.place.line < s.mark.line) : s.dropStale = .ok { s with pending := none } := by
  have hstale : s.isStale key = true := by simp [isStale, hline]
  simp [dropStale, hdemanded, hpending, refresh, hstale, hrequired, bind, Except.bind, pure,
    Except.pure]

theorem dropStale_of_none (hdemanded : s.demanded = none) (hpending : s.pending = none) :
    s.dropStale = .ok s := by
  obtain ⟨cursor, lexemes, count, pending, outer, demanded, indent, indents, keyAllowed, ended⟩ := s
  obtain rfl : demanded = none := hdemanded
  obtain rfl : pending = none := hpending
  rfl

theorem dropStale_of_fresh {key : PendingKey} (hdemanded : s.demanded = none)
    (hpending : s.pending = some key) (hline : key.place.line = s.mark.line)
    (hoffset : s.mark.offset ≤ key.place.offset + 1024) : s.dropStale = .ok s := by
  have hfresh : s.isStale key = false := by
    simp only [isStale, hline, Nat.lt_irrefl, decide_false, Bool.false_or, decide_eq_false_iff_not]
    omega
  obtain ⟨cursor, lexemes, count, pending, outer, demanded, indent, indents, keyAllowed, ended⟩ := s
  obtain rfl : demanded = none := hdemanded
  obtain rfl : pending = some key := hpending
  simp [dropStale, refresh, hfresh, bind, Except.bind, pure, Except.pure]

/-- A place is kept or forgotten where no key is required. -/
theorem dropStale_cases (hdemanded : s.demanded = none)
    (hrequired : ∀ key ∈ s.pending, key.required = false) :
    ∃ pending, s.dropStale = .ok { s with pending := pending } ∧
      ∀ key ∈ pending, key ∈ s.pending := by
  cases hpending : s.pending with
  | none => exact ⟨none, by rw [dropStale_of_none hdemanded hpending, ← hpending], fun _ h => h⟩
  | some key =>
    have hkey := hrequired key hpending
    cases hstale : s.isStale key with
    | true =>
      refine ⟨none, ?_, fun _ h => nomatch h⟩
      simp [dropStale, hdemanded, hpending, refresh, hstale, hkey, bind, Except.bind, pure,
        Except.pure]
    | false =>
      refine ⟨some key, ?_, fun _ h => h⟩
      simp [dropStale, hdemanded, hpending, refresh, hstale, bind, Except.bind, pure,
        Except.pure]

/-- Where nothing is required, what began on an earlier line is forgotten. -/
theorem dropStale_earlier (lexemes : List Lexeme) (indent : Int) (indents : List Int)
    (keyAllowed : Bool) {pending : Option PendingKey}
    (hpending : ∀ key ∈ pending, key.required = false ∧ key.place.line < mark.line) :
    dropStale { resting ⟨rest, mark⟩ lexemes indent indents keyAllowed with pending := pending } =
      .ok (resting ⟨rest, mark⟩ lexemes indent indents keyAllowed) := by
  cases pending with
  | none => exact dropStale_of_none rfl rfl
  | some key => exact dropStale_of_line rfl rfl (hpending key rfl).1 (hpending key rfl).2

/-- Spaces in front of a token change nothing but the place. -/
theorem prepare_spaces (hcursor : s.cursor = ⟨spaces k ++ rest, mark⟩) (hrest : Begins rest)
    (hdrop : dropStale { s with cursor := ⟨rest, mark.across (spaces k)⟩ } = .ok r) :
    s.prepare = .ok (r.closeBlocks r.mark.column) := by
  rw [prepare, skipSpace_spaces hcursor hrest, hdrop]
  rfl

/-- A token behind spaces on the same line. -/
theorem reaches_spaces (mark : Mark) (lexemes : List Lexeme) (indent : Int) (indents : List Int)
    (keyAllowed : Bool) (k : Nat) (hrest : Begins rest) :
    Reaches (resting ⟨spaces k ++ rest, mark⟩ lexemes indent indents keyAllowed)
      (resting ⟨rest, mark.across (spaces k)⟩ lexemes indent indents keyAllowed) :=
  ⟨rfl, prepare_spaces rfl hrest (dropStale_of_none rfl rfl)⟩

/-- A token on the next line, where no key can begin any more on this one. -/
theorem reaches_line {pending : Option PendingKey}
    (hpending : ∀ key ∈ pending, key.required = false ∧ key.place.line ≤ mark.line)
    (hrest : Begins rest) :
    Reaches
      { resting ⟨'\n' :: (spaces k ++ rest), mark⟩ lexemes indent indents keyAllowed with
        pending := pending }
      (resting ⟨rest, mark.across ('\n' :: spaces k)⟩ lexemes indent indents true) := by
  have hnext : mark.line < (mark.across ('\n' :: spaces k)).line := by
    rw [Mark.across_break rfl]
    exact Nat.lt_of_lt_of_le (Nat.lt_succ_self _) (Mark.line_le_across (mark.newline '\n') _)
  refine ⟨rfl, ?_⟩
  rw [prepare]
  change (dropStale (skipSpace ((spaces k ++ rest).length + 2) _) >>= _) = _
  rw [skipSpace_line rfl hrest rfl]
  change (dropStale { resting ⟨rest, mark.across ('\n' :: spaces k)⟩ lexemes indent indents true with
    pending := pending } >>= _) = _
  rw [dropStale_earlier lexemes indent indents true fun key hkey =>
    ⟨(hpending key hkey).1, Nat.lt_of_le_of_lt (hpending key hkey).2 hnext⟩]
  rfl

theorem reaches_nextLine (mark : Mark) (lexemes : List Lexeme) (indent : Int) (indents : List Int)
    (keyAllowed : Bool) (k : Nat) (hrest : Begins rest) :
    Reaches (resting ⟨'\n' :: (spaces k ++ rest), mark⟩ lexemes indent indents keyAllowed)
      (resting ⟨rest, mark.across ('\n' :: spaces k)⟩ lexemes indent indents true) :=
  reaches_line (fun _ h => nomatch h) hrest

/-- At the end of a line a place may be forgotten at once, or in front of the next token. -/
theorem dropStale_reaches_line (mark : Mark) (lexemes : List Lexeme) (indent : Int)
    (indents : List Int) (keyAllowed : Bool) (k : Nat) {pending : Option PendingKey}
    (hpending : ∀ key ∈ pending, key.required = false ∧ key.place.line ≤ mark.line)
    (hrest : Begins rest) :
    ∃ t, dropStale
        { resting ⟨'\n' :: (spaces k ++ rest), mark⟩ lexemes indent indents keyAllowed with
          pending := pending } = .ok t ∧
      Reaches t
        (resting ⟨rest, mark.across ('\n' :: spaces k)⟩ lexemes indent indents true) := by
  obtain ⟨pending', hdrop, hkept⟩ := dropStale_cases
    (s := { resting ⟨'\n' :: (spaces k ++ rest), mark⟩ lexemes indent indents keyAllowed with
      pending := pending }) rfl (fun key hkey => (hpending key hkey).1)
  exact ⟨_, hdrop, reaches_line (fun key hkey => hpending key (hkept key hkey)) hrest⟩

/-! ### Indicators -/

/-- The opening of a collection at a place, unless one is open there already. -/
def opening (indent : Int) (place : Mark) (token : Token) : List Lexeme :=
  if indent < place.column then [⟨token, place, place⟩] else []

/-- The columns around a collection at a place, whether it was open already or not. -/
def around (indent : Int) (place : Mark) (indents : List Int) : List Int :=
  if indent < place.column then indent :: indents else indents

theorem openBlock_resting (cursor : Cursor) (lexemes : List Lexeme) (indents : List Int)
    (keyAllowed : Bool) (hindent : indent ≤ mark.column) (token : Token) :
    (resting cursor lexemes indent indents keyAllowed).openBlock mark none token =
      resting cursor (opening indent mark token ++ lexemes) mark.column
        (around indent mark indents) keyAllowed := by
  unfold openBlock opening around
  by_cases h : indent < mark.column
  · simp only [h, if_true]
    exact if_pos (by simp [resting, inFlow, h])
  · have hsame : indent = mark.column := by omega
    simp only [h, if_false]
    rw [if_neg (by simp [resting, h])]
    subst hsame
    rfl

theorem not_atDocumentMark (c : Char) (mark : Mark) (hafter : gapAhead after = true) :
    Cursor.atDocumentMark ⟨c :: after, mark⟩ = false := by
  cases after with
  | nil => simp [Cursor.atDocumentMark, isDocumentMark]
  | cons d after =>
    have hd : d ≠ '-' ∧ d ≠ '.' := by
      constructor <;> (rintro rfl; cases hafter)
    unfold Cursor.atDocumentMark isDocumentMark
    split <;> simp_all

/-- A dash before an item. -/
theorem take_dash (hafter : gapAhead after = true) (hindent : indent ≤ mark.column) :
    (resting ⟨'-' :: after, mark⟩ lexemes indent indents true).take =
      .ok (resting ⟨after, mark.next '-'⟩
        (⟨.blockEntry, mark, mark.next '-'⟩ :: (opening indent mark .blockSequence ++ lexemes))
        mark.column (around indent mark indents) true) := by
  have htoken : (resting ⟨'-' :: after, mark⟩ lexemes indent indents true).token '-' after =
      (resting ⟨'-' :: after, mark⟩ lexemes indent indents true).blockEntry := by
    have hmark := not_atDocumentMark '-' mark hafter
    simp [token, resting, hmark, hafter]
  change (token _ _ _ >>= dropStale) = _
  rw [htoken]
  change (dropPending (openBlock _ mark none .blockSequence) >>= _) >>= _ = _
  rw [openBlock_resting _ _ _ _ hindent]
  rfl

/-- A question mark before a key. -/
theorem take_question (hafter : gapAhead after = true) (hindent : indent ≤ mark.column) :
    (resting ⟨'?' :: after, mark⟩ lexemes indent indents true).take =
      .ok (resting ⟨after, mark.next '?'⟩
        (⟨.key, mark, mark.next '?'⟩ :: (opening indent mark .blockMapping ++ lexemes))
        mark.column (around indent mark indents) true) := by
  have htoken : (resting ⟨'?' :: after, mark⟩ lexemes indent indents true).token '?' after =
      (resting ⟨'?' :: after, mark⟩ lexemes indent indents true).explicitKey := by
    have hmark := not_atDocumentMark '?' mark hafter
    simp [token, resting, inFlow, hmark, hafter]
  change (token _ _ _ >>= dropStale) = _
  rw [htoken]
  change (dropPending (openBlock _ mark none .blockMapping) >>= _) >>= _ = _
  rw [openBlock_resting _ _ _ _ hindent]
  rfl

/-- A colon before a value, in the column of the mapping. -/
theorem take_colon (lexemes : List Lexeme) (indents : List Int) {column : Nat}
    (hafter : gapAhead after = true) (hcolumn : mark.column = column) :
    (resting ⟨':' :: after, mark⟩ lexemes column indents true).take =
      .ok (resting ⟨after, mark.next ':'⟩ (⟨.value, mark, mark.next ':'⟩ :: lexemes) column indents
        true) := by
  subst hcolumn
  have htoken : (resting ⟨':' :: after, mark⟩ lexemes mark.column indents true).token ':' after =
      (resting ⟨':' :: after, mark⟩ lexemes mark.column indents true).mappingValue := by
    have hmark := not_atDocumentMark ':' mark hafter
    simp [token, resting, inFlow, hmark, hafter]
  have hopen := openBlock_resting ⟨':' :: after, mark⟩ lexemes indents true
    (Int.le_refl (mark.column : Int)) .blockMapping
  rw [opening, around, if_neg (Int.lt_irrefl _), if_neg (Int.lt_irrefl _), List.nil_append] at hopen
  change (token _ _ _ >>= dropStale) = _
  rw [htoken]
  have hvalue (s : Lexing) (hs : s.openBlock s.mark none .blockMapping = s)
      (hpending : s.pending = none) (hallowed : s.keyAllowed = true) :
      s.mappingValue = .ok { s.indicator .value 1 with keyAllowed := !s.inFlow } := by
    simp [mappingValue, hpending, hallowed, hs]
    rfl
  rw [hvalue _ hopen rfl rfl]
  rfl

/-- A token goes in front of the last ones. -/
theorem insertAt_resting (cursor : Cursor) (lexemes : List Lexeme) (indent : Int)
    (indents : List Int) (keyAllowed : Bool) (pending : Option PendingKey) (later : List Lexeme)
      (lexeme : Lexeme) :
    insertAt { resting cursor (later ++ lexemes) indent indents keyAllowed with pending := pending }
        lexemes.length lexeme =
      { resting cursor (later ++ lexeme :: lexemes) indent indents keyAllowed with
        pending := pending } := by
  have hlater : (later ++ lexemes).length - lexemes.length = later.length := by simp
  have hcount : (later ++ lexemes).length + 1 = (later ++ lexeme :: lexemes).length := by
    simp [Nat.add_assoc]
  simp only [insertAt, resting, hlater, hcount, List.take_left, List.drop_left]

/-- The state at the colon behind the scalar of a key, which began at `place`. -/
def atColon (after : List Char) (mark place : Mark) (scalar : Lexeme) (lexemes : List Lexeme)
    (indent : Int) (indents : List Int) : Lexing :=
  { resting ⟨':' :: after, mark⟩ (scalar :: lexemes) indent indents false with
    pending := some ⟨lexemes.length, place, indent == place.column⟩ }

/-- A colon behind a key on its line: the key goes in front of its scalar, and the opening of the
mapping in front of the key. -/
theorem take_keyColon {place : Mark} {scalar : Lexeme} (hafter : gapAhead after = true)
    (hindent : indent ≤ place.column) :
    (atColon after mark place scalar lexemes indent indents).take =
      .ok (resting ⟨after, mark.next ':'⟩
        (⟨.value, mark, mark.next ':'⟩ :: scalar :: ⟨.key, place, place⟩ ::
          (opening indent place .blockMapping ++ lexemes))
        place.column (around indent place indents) false) := by
  generalize hs : atColon after mark place scalar lexemes indent indents = s
  have htoken : s.token ':' after = s.mappingValue := by
    have hmark := not_atDocumentMark ':' mark hafter
    simp [← hs, atColon, token, resting, inFlow, hmark, hafter]
  have hkey := insertAt_resting ⟨':' :: after, mark⟩ lexemes indent indents false
    (some ⟨lexemes.length, place, indent == place.column⟩) [scalar] ⟨.key, place, place⟩
  have hmapping := insertAt_resting ⟨':' :: after, mark⟩ lexemes indent indents false
    (some ⟨lexemes.length, place, indent == place.column⟩) [scalar, ⟨.key, place, place⟩]
    ⟨.blockMapping, place, place⟩
  have hopen : (s.insertAt lexemes.length ⟨.key, place, place⟩).openBlock place
      (some lexemes.length) .blockMapping =
      { resting ⟨':' :: after, mark⟩ (scalar :: ⟨.key, place, place⟩ ::
          (opening indent place .blockMapping ++ lexemes)) place.column
          (around indent place indents) false with
        pending := some ⟨lexemes.length, place, indent == place.column⟩ } := by
    rw [← hs]
    refine (congrArg (openBlock · place (some lexemes.length) .blockMapping) hkey).trans ?_
    unfold openBlock opening around
    by_cases h : indent < place.column
    · simp only [h, if_true]
      rw [if_pos (by simp [resting, inFlow, h])]
      exact congrArg
        (fun s : Lexing => { s with indent := place.column, indents := indent :: indents }) hmapping
    · have hsame : indent = place.column := by omega
      simp only [h, if_false]
      rw [if_neg (by simp [resting, h])]
      subst hsame
      rfl
  have hrest : s.cursor.rest = ':' :: after := by rw [← hs]; rfl
  have hpending : s.pending = some ⟨lexemes.length, place, indent == place.column⟩ := by
    rw [← hs]
    rfl
  rw [take, hrest]
  change (token _ _ _ >>= dropStale) = _
  rw [htoken, mappingValue, hpending]
  simp only [hopen]
  rfl

end Lexing

end CollectorTemplate.Yaml
