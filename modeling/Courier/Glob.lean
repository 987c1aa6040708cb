import Courier.Text.Utf8

/-!
# Glob patterns

`*` is any run of bytes, `?` any one byte, `[...]` one byte of a class and `\x`
the byte `x`; every other byte is itself.  A `[` that opens no closed class and
a last lone `\` are themselves, too.

**Algorithm.**  The matcher walks the pattern and the text together.  Of all
stars passed it remembers only the last one and the text behind the run it has
given to that star; when the pattern does not go on, the run grows by one byte.

**Results.**
* `scanClass`: whether a class takes a byte, and what follows the class.
* `State.step`: one move of the matcher.
* `accepts`: whether a text matches a pattern.
-/

namespace Courier
namespace Glob

/-- The byte `*`. -/
def starMark : UInt8 := 0x2A

/-- Whether a byte lies between two others, in either order. -/
def between (a b c : UInt8) : Bool :=
  if a ≤ b then a ≤ c && c ≤ b else b ≤ c && c ≤ a

/-- The items of a class up to its closing bracket: whether one of them is the
byte `c`, and what follows the bracket.  A bracket that comes first is an item. -/
def scanItems (c : UInt8) (first matched : Bool) (p : Bytes) : Option (Bool × Bytes) :=
  match p with
  | [] => none
  | [b] =>
      if b = 0x5D ∧ first = false then some (matched, []) else none
  | b :: e :: q =>
      if b = 0x5D ∧ first = false then some (matched, e :: q)
      else if b = 0x5C then scanItems c false (matched || e == c) q
      else
        match q with
        | [] => scanItems c false (matched || b == c) [e]
        | h :: r =>
            if e = 0x2D ∧ h ≠ 0x5D then scanItems c false (matched || between b h c) r
            else scanItems c false (matched || b == c) (e :: h :: r)
termination_by p.length

/-- A class behind its opening bracket: whether it takes the byte `c`, and what
follows its closing bracket; nothing if it is never closed. -/
def scanClass (c : UInt8) (p : Bytes) : Option (Bool × Bytes) :=
  match p with
  | b :: q =>
      if b = 0x5E ∨ b = 0x21 then (scanItems c true false q).map fun r => (!r.1, r.2)
      else scanItems c true false (b :: q)
  | [] => none

/-- The pattern behind its first token, if that is no star and takes the byte `c`. -/
def consume? (c : UInt8) (p : Bytes) : Option Bytes :=
  match p with
  | [] => none
  | b :: q =>
      if b = 0x3F then some q
      else if b = 0x5B then
        match scanClass c q with
        | some (true, r) => some r
        | some (false, _) => none
        | none => if c = 0x5B then some q else none
      else if b = 0x5C then
        match q with
        | e :: r => if e = c then some r else none
        | [] => if c = 0x5C then some [] else none
      else if b = c then some q
      else none

theorem scanItems_length_lt
    (c : UInt8)
    (first matched : Bool)
    (p : Bytes)
    {m : Bool}
    {r : Bytes}
    (h : scanItems c first matched p = some (m, r)) :
    r.length < p.length := by
  fun_induction scanItems c first matched p <;> grind

theorem scanClass_length_lt
    {c : UInt8}
    {p r : Bytes}
    {m : Bool}
    (h : scanClass c p = some (m, r)) :
    r.length < p.length := by
  cases p with
  | nil => simp [scanClass] at h
  | cons b q =>
      simp only [scanClass] at h
      split at h
      · obtain ⟨⟨n, s⟩, hs, he⟩ := Option.map_eq_some_iff.1 h
        cases he
        exact Nat.lt_succ_of_lt (scanItems_length_lt _ _ _ _ hs)
      · exact scanItems_length_lt _ _ _ _ h

theorem consume?_length_lt
    {c : UInt8}
    {p r : Bytes}
    (h : consume? c p = some r) :
    r.length < p.length := by
  unfold consume? at h
  split at h
  · simp at h
  · next b q =>
      split at h
      · simp at h; subst h; simp
      · split at h
        · split at h
          · next hs => simp at h; subst h; exact Nat.lt_succ_of_lt (scanClass_length_lt hs)
          · simp at h
          · split at h
            · simp at h; subst h; simp
            · simp at h
        · split at h
          · split at h
            · split at h
              · simp at h; subst h; simp only [List.length_cons]; omega
              · simp at h
            · split at h
              · simp at h; subst h; simp
              · simp at h
          · split at h
            · simp at h; subst h; simp
            · simp at h

/-- Where the matcher stands: what is left of the pattern and of the text, and
behind the last star passed the pattern and the text that follows its run. -/
structure State where
  pattern : Bytes
  text : Bytes
  star : Option (Bytes × Bytes)
  text_le : ∀ s, star = some s → text.length ≤ s.2.length

namespace State

/-- The matcher before its first move. -/
def start (pattern text : Bytes) : State :=
  ⟨pattern, text, none, by simp⟩

/-- How far the run of the last star can still grow. -/
def slack (s : State) : Nat :=
  match s.star with
  | some p => p.2.length
  | none => s.text.length + 1

/-- Lets the run of the last star grow by one byte; without a star the text
does not match. -/
def retry (s : State) : State ⊕ Bool :=
  match s.star with
  | none => .inr false
  | some (_, []) => .inr false
  | some (p, _ :: t) => .inl ⟨p, t, some (p, t), by simp⟩

/-- One move, or the answer. -/
def step (s : State) : State ⊕ Bool :=
  match s.text, s.text_le with
  | [], _ => .inr (s.pattern.all (· == starMark))
  | c :: t, le =>
      match s.pattern with
      | [] => s.retry
      | b :: p =>
          if b = starMark then .inl ⟨p, c :: t, some (p, c :: t), by simp⟩
          else
            match consume? c (b :: p) with
            | some q => .inl ⟨q, t, s.star, fun x hx => Nat.le_of_succ_le (le x hx)⟩
            | none => s.retry

theorem retry_slack_lt
    {s t : State}
    (h : s.retry = .inl t) :
    t.slack < s.slack := by
  unfold retry at h
  split at h
  · simp at h
  · simp at h
  · next hs =>
      simp only [Sum.inl.injEq] at h
      subst h
      simp [slack, hs]

theorem step_decreases
    {s t : State}
    (h : s.step = .inl t) :
    t.slack < s.slack ∨ t.slack = s.slack ∧ t.pattern.length < s.pattern.length := by
  unfold step at h
  split at h
  · simp at h
  · next c u le htext _ =>
      split at h
      · exact Or.inl (retry_slack_lt h)
      · next b p hp =>
          split at h
          · simp only [Sum.inl.injEq] at h
            subst h
            have hle : (c :: u).length ≤ s.slack := by
              unfold slack
              split
              · next x hx => exact le x hx
              · simp [htext]
            rcases Nat.lt_or_eq_of_le hle with hlt | heq
            · exact Or.inl hlt
            · exact Or.inr ⟨heq, by simp [hp]⟩
          · split at h
            · next q hq =>
                simp only [Sum.inl.injEq] at h
                subst h
                rcases Option.eq_none_or_eq_some s.star with hs | ⟨x, hs⟩
                · exact Or.inl (by simp [slack, hs, htext])
                · exact Or.inr ⟨by simp [slack, hs], by simpa [hp] using consume?_length_lt hq⟩
            · exact Or.inl (retry_slack_lt h)

/-- All moves up to the answer. -/
def run (s : State) : Bool :=
  match _h : s.step with
  | .inr answer => answer
  | .inl t => run t
termination_by (s.slack, s.pattern.length)
decreasing_by
  rcases step_decreases _h with hlt | ⟨heq, hlt⟩
  · exact Prod.Lex.left _ _ hlt
  · exact heq ▸ Prod.Lex.right _ hlt

end State

/-- Whether a byte string matches a pattern. -/
def acceptsBytes (pattern text : Bytes) : Bool :=
  (State.start pattern text).run

/-- Whether a text matches a pattern, byte by byte. -/
def accepts (pattern text : String) : Bool :=
  acceptsBytes (Utf8.encode pattern) (Utf8.encode text)

end Glob
end Courier
