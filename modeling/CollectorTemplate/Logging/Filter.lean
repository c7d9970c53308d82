/-
Which events enter the log.

A filter is a list of directives with commas between them.  A directive says up to which level
events are let through: those of a target, those that happen inside a span, those that tell a field,
or all.

* `LogFilter.read?` : the filter that a text writes, none if a directive is malformed;
* `LogFilter.admits` : whether an event enters the log;
* `LogFilter.admitted` : the events of a trace that enter the log.

Of the directives that speak of an event by its target and fields, the most specific one decides.
One that speaks of a span lets through what happens inside, whatever the others say.
-/
import CollectorTemplate.Decimal.Reading
import CollectorTemplate.Emission

namespace CollectorTemplate

/-! ### Where events come from -/

/-- The part of the program that opens a span or notes an event. -/
inductive Origin
  | assembly
  | build
  | settings
  deriving Repr, DecidableEq, Inhabited

/-- The target by which filters know the part. -/
def Origin.target : Origin → String
  | assembly => "monitoring_synth::services::assembler"
  | build => "monitoring_synth::services::template_data"
  | settings => "monitoring_synth::config"

/-- The part that opens the span. -/
def Span.origin : Span → Origin
  | build .. => .build
  | _ => .assembly

/-- The fields of the span, those among them that are known later too. -/
def Span.fieldNames (span : Span) : List String := "reconcile_id" :: span.fields.map Prod.fst

/-- The part that notes the event. -/
def Event.origin : Event → Origin
  | skippedCancelled | built _ => .build
  | ignoredSettings .. => .settings
  | _ => .assembly

def Event.fieldNames (event : Event) : List String := "message" :: event.details.map Prod.fst

/-- The spans around an event, given those that were opened before it.  Assemblies happen inside of
builds, and nothing that a build notes happens inside of an assembly. -/
def Event.around (event : Event) (opened : List Span) : List Span :=
  match event.origin with
  | .assembly => opened
  | .build => opened.filter fun span => span.origin = .build
  | .settings => []

/-! ### Directives -/

/-- The least grave level that is let through, none if nothing is. -/
abbrev Threshold := Option Level

/-- Whether a level is let through. -/
def Threshold.admits (threshold : Threshold) (level : Level) : Bool :=
  threshold.any fun t => level.rank ≤ t.rank

/-- The threshold of a name in any case, or of a number. -/
def Threshold.read? (text : List Char) : Option Threshold :=
  let digits :=
    match text with
    | '+' :: rest => rest
    | rest => rest
  let levels : List (String × Threshold) :=
    [("off", none), ("error", some .error), ("warn", some .warn), ("info", some .info),
      ("debug", some .debug), ("trace", some .trace)]
  if !digits.isEmpty && digits.all Char.isDigit then
    (levels[Decimal.digitsValue digits]?).map Prod.snd
  else (levels.find? fun level => level.1.toList = text.map Char.toLower).map Prod.snd

structure Directive where
  /-- What the target of the event, or of the span, begins with. -/
  target : Option String := none
  /-- The name of the span. -/
  span : Option String := none
  /-- The field that the event, or the span, must tell, and the value that it must have. -/
  field : Option (String × Option String) := none
  threshold : Threshold := some .trace
  deriving Repr, DecidableEq, Inhabited

namespace Directive

/-- The directive with the threshold that ends its text.  Without one it lets everything through. -/
def ending? (d : Directive) : List Char → Option Directive
  | [] => some d
  | ['='] => some d
  | '=' :: level => (Threshold.read? level).map fun threshold => { d with threshold }
  | _ => none

/-- A field and its value. -/
def readField (text : List Char) : String × Option String :=
  let name := text.takeWhile (· ≠ '=')
  match text.dropWhile (· ≠ '=') with
  | [] => (String.ofList name, none)
  | _ :: value => (String.ofList name, some (String.ofList (value.takeWhile (· ≠ '='))))

/-- The directive with a span, whose text follows its bracket. -/
def spanned? (d : Directive) (text : List Char) : Option Directive :=
  let name := String.ofList (text.takeWhile fun c => c ≠ ']' ∧ c ≠ '\x7b')
  match text.dropWhile fun c => c ≠ ']' ∧ c ≠ '\x7b' with
  | ']' :: rest => { d with span := some name }.ending? rest
  | _ :: rest =>
    let field := rest.takeWhile (· ≠ '\x7d')
    match rest.dropWhile (· ≠ '\x7d') with
    | _ :: ']' :: rest =>
      if field.isEmpty then none
      else
        let span := if name.isEmpty then none else some name
        { d with span, field := some (readField field) }.ending? rest
    | _ => none
  | [] => none

/-- Whether a target may begin with a character.  Characters outside ASCII count as letters. -/
def isFirst (c : Char) : Bool :=
  c.isAlphanum || c == '_' || c == '-' || c == ':' || 0x80 ≤ c.toNat

/-- The directive that a text writes.  A word alone is a threshold if it can be, and else a
target. -/
def read? (text : List Char) : Option Directive :=
  match text with
  | [] => none
  | '[' :: rest => ({} : Directive).spanned? rest
  | c :: _ =>
    if !isFirst c then none
    else
      let word := text.takeWhile fun c => c ≠ '=' ∧ c ≠ '['
      let target := some (String.ofList word)
      match text.dropWhile fun c => c ≠ '=' ∧ c ≠ '[' with
      | [] =>
        match Threshold.read? word with
        | some threshold => some { threshold }
        | none => some { target }
      | '[' :: rest => { target : Directive }.spanned? rest
      | rest => { target : Directive }.ending? rest

/-- Whether the directive speaks of spans. -/
def isOfSpans (d : Directive) : Bool := d.span.isSome || d.field.isSome

/-- Whether the directive speaks of events by themselves. -/
def isOfEvents (d : Directive) : Bool := d.span.isNone && d.field.all fun field => field.2.isNone

/-- Whether the target begins as the directive wants it. -/
def coversTarget (d : Directive) (origin : Origin) : Bool :=
  d.target.all fun target => target.toList.isPrefixOf origin.target.toList

/-- Whether the directive speaks of a span. -/
def coversSpan (d : Directive) (span : Span) : Bool :=
  d.isOfSpans && d.coversTarget span.origin && d.span.all (· == span.name) &&
    d.field.all fun (name, value) =>
      span.fieldNames.contains name && value.all fun v => span.fields.contains (name, v)

/-- Whether the directive speaks of an event by itself. -/
def coversEvent (d : Directive) (event : Event) : Bool :=
  d.isOfEvents && d.coversTarget event.origin &&
    d.field.all fun field => event.fieldNames.contains field.1

/-- How specific the target and the field of the directive are. -/
def specificity (d : Directive) : Nat × List Char :=
  ((d.target.map fun target => target.length + 1).getD 0,
    (d.field.map fun field => '=' :: field.1.toList).getD [])

/-- Whether the directive is as specific as another. -/
def isAsSpecific (d e : Directive) : Bool :=
  let (m, f) := d.specificity
  let (n, g) := e.specificity
  n < m || (n == m && !(f < g))

end Directive

/-! ### Filters -/

structure LogFilter where
  directives : List Directive
  deriving Repr, DecidableEq, Inhabited

namespace LogFilter

/-- The filter that a text writes.  What is empty between commas does not count. -/
def read? (text : String) : Option LogFilter :=
  (((text.splitOn ",").filter (· ≠ "")).mapM fun part => Directive.read? part.toList).map mk

/-- The most specific of directives, of several the last. -/
def mostSpecific? (directives : List Directive) : Option Directive :=
  directives.foldl (fun best d => if best.all d.isAsSpecific then some d else best) none

/-- Whether an event inside of spans enters the log. -/
def admits (filter : LogFilter) (around : List Span) (event : Event) : Bool :=
  (filter.directives.any fun d =>
    (around.any d.coversSpan) && Threshold.admits d.threshold event.level) ||
  (mostSpecific? (filter.directives.filter (·.coversEvent event))).any fun d =>
    Threshold.admits d.threshold event.level

/-- The events of a trace that enter the log: those after the log begins that the filter admits. -/
def admitted (filter : LogFilter) (trace : List Emission) : List Event :=
  go [] false trace
where
  /-- Goes on in a trace, with the spans that were opened and whether the log has begun. -/
  go (opened : List Span) (begun : Bool) : List Emission → List Event
    | [] => []
    | .opened span :: rest => go (span :: opened) begun rest
    | .logBegins :: rest => go opened true rest
    | .event event :: rest =>
      if begun && filter.admits (event.around opened) event then event :: go opened begun rest
      else go opened begun rest
    | _ :: rest => go opened begun rest

end LogFilter

end CollectorTemplate
