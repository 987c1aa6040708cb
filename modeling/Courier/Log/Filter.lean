import Courier.Log.Directive

/-!
# Log filters

Directives with commas between them select log lines.  Of the directives that are
about targets and fields of lines, the most specific one decides.  Those about
activities add all lines within an activity up to their level.

**Results.**
* `LogFilter.ofText`: the filter of directives.
* `LogFilter.admits`: whether a line is written.
-/

namespace Courier

namespace LogDirective

/-- Whether a directive selects lines by themselves, and not by an activity or by the
value of a field. -/
def isPlain (d : LogDirective) : Bool :=
  d.activity.isNone && d.field.all (·.value.isNone)

/-- Whether a directive is about activities. -/
def isScoped (d : LogDirective) : Bool :=
  d.activity.isSome || d.field.isSome

/-- Whether a directive is about a target. -/
def concernsTarget (d : LogDirective) (target : String) : Bool :=
  d.target.all fun t => t.toList.isPrefixOf target.toList

/-- Whether a plain directive is about a line. -/
def concerns (d : LogDirective) (l : LogLine) : Bool :=
  d.concernsTarget l.target && d.field.all fun f => l.fields.any (·.1 == f.name)

/-- How specific the target of a directive is: by its length, and none is least. -/
def targetWeight (d : LogDirective) : Nat :=
  (d.target.map (·.length + 1)).getD 0

/-- The field of a directive; one without a field has none of its own. -/
def fieldName (d : LogDirective) : String :=
  (d.field.map (·.name)).getD ""

/-- Whether a directive is at least as specific as another one: by the target, then
with a field before without one, then by the order of the fields. -/
def isAsSpecific (d e : LogDirective) : Bool :=
  if d.targetWeight = e.targetWeight then
    if d.field.isSome = e.field.isSome then !decide (d.fieldName < e.fieldName)
    else d.field.isSome
  else e.targetWeight < d.targetWeight

/-- Whether two directives are about the same. -/
def isSameScope (d e : LogDirective) : Bool :=
  d.target == e.target && d.activity == e.activity &&
    match d.field, e.field with
    | some f, some g => f.isSame g
    | none, none => true
    | _, _ => false

/-- Whether a directive is about an activity. -/
def concernsSpan (d : LogDirective) (s : LogSpan) : Bool :=
  d.concernsTarget s.target && d.activity.all (· == s.name) &&
    d.field.all fun f => s.fields.any (·.1 == f.name)

/-- Whether the value that a directive asks for is that of the activity's field. -/
def isMetBy (d : LogDirective) (s : LogSpan) : Bool :=
  d.field.all fun f =>
    f.value.all fun v => ((s.fields.lookup f.name).map fun text => v.isMet text).getD false

end LogDirective

/-- Directives in the order in which they were given. -/
abbrev LogFilter := List LogDirective

namespace LogFilter

/-- The directives about activities; of two about the same the later one. -/
def spanDirectives (f : LogFilter) : List LogDirective :=
  (f.filter (·.isScoped)).foldl
    (fun ds d => ds.filter (fun e => !d.isSameScope e) ++ [d]) []

/-- The directives that select lines by themselves, those that are also about
activities behind the others. -/
def lineDirectives (f : LogFilter) : List LogDirective :=
  f.filter (fun d => !d.isScoped) ++ f.filter fun d => d.isScoped && d.isPlain

/-- The directive that decides about a line: the most specific one, and of two that
are equally specific the later one. -/
def deciding? (f : LogFilter) (l : LogLine) : Option LogDirective :=
  f.lineDirectives.foldl (fun best d =>
    if d.concerns l && best.all d.isAsSpecific then some d else best) none

/-- The rank up to which activities are followed at all.  A condition on a value may
be met by any of them. -/
def spanRank (f : LogFilter) : Nat :=
  if f.any fun d => d.field.any (·.value.isSome) then LogDirective.allRanks
  else f.foldl (fun n d => max n d.limit) 0

/-- The rank up to which lines within an activity are written. -/
def limitWithin (f : LogFilter) (s : LogSpan) : Nat :=
  if s.level.rank ≤ f.spanRank then
    let met := f.spanDirectives.filter fun d => d.concernsSpan s && d.isMetBy s
    met.foldl (fun n d => max n d.limit) 0
  else 0

/-- Whether a line is written. -/
def admits (f : LogFilter) (l : LogLine) : Bool :=
  l.span.any (fun s => l.level.rank ≤ f.limitWithin s) ||
    (f.deciding? l).any fun d => l.level.rank ≤ d.limit

/-- The filter of directives, if all are well formed; without any nothing is written. -/
def ofText? (s : String) : Option LogFilter :=
  ((Text.splitOn ',' s.toList).filter (· ≠ [])).mapM fun p =>
    LogDirective.ofText? (String.ofList p)

/-- The filter of directives, or that of the default if they are not well formed. -/
def ofText (s : String) : LogFilter :=
  (ofText? s).getD [{ limit := LogLevel.info.rank }]

end LogFilter
end Courier
