import Courier.Proofs.Glob.Classes

/-!
# The matcher by positions

The matcher passes on what is left of the pattern and of the text.  The same moves can be made
over two indices, and then every byte is read at an index that must lie within the pattern or
the text.  Here a read anywhere else is a failure, and the loop over indices is shown never to
fail: it stands where the matcher stands, move by move.  A mismatch takes both indices back,
but the run of the last star has then grown by a byte, which ends the loop.

**Results.**
* `classFrom_eq`, `passAt_eq`: the scanners over indices read within the pattern and the text.
* `Boundary`: the indices between the tokens of a pattern.
* `Cursor.Shows.round`: one round of the loop is one move of the matcher.
* `Cursor.Shows.rounds_of_effort_lt`: the loop answers within so many rounds.
* `positions_stay_within`: all rounds of the loop, and its answer.
-/

namespace Courier
namespace Glob

/-- A read that does not lie within a byte string of the given length. -/
structure Stray where
  index : Nat
  length : Nat

/-- The byte at an index. -/
def byteAt (p : Bytes) (i : Nat) : Except Stray UInt8 :=
  match p[i]? with
  | some b => .ok b
  | none => .error ⟨i, p.length⟩

/-- What stands from an index on, which may be the end. -/
def sliceFrom (p : Bytes) (i : Nat) : Except Stray Bytes :=
  if i ≤ p.length then .ok (p.drop i) else .error ⟨i, p.length⟩

section Reading

variable {p q : Bytes} {i : Nat} {b : UInt8}

theorem length_of_drop_eq_cons
    (h : p.drop i = b :: q) :
    p.length = i + 1 + q.length := by
  have hlen := congrArg List.length h
  simp only [List.length_drop, List.length_cons] at hlen
  omega

theorem lt_of_drop_eq_cons
    (h : p.drop i = b :: q) :
    i < p.length := by
  rw [length_of_drop_eq_cons h]
  omega

theorem drop_succ_of_drop_eq_cons
    (h : p.drop i = b :: q) :
    p.drop (i + 1) = q := by
  rw [← List.drop_drop, h]
  rfl

theorem byteAt_of_drop_eq_cons
    (h : p.drop i = b :: q) :
    byteAt p i = .ok b := by
  have hget : p[i]? = some b := by
    rw [← List.head?_drop, h]
    rfl
  rw [byteAt, hget]

end Reading

/-- The end of the range that begins at an index, if one does. -/
def rangeEnd (pattern : Bytes) (i : Nat) : Except Stray (Option UInt8) := do
  if i + 2 < pattern.length then
    if (← byteAt pattern (i + 1)) = 0x2D then
      let e ← byteAt pattern (i + 2)
      return if e = 0x5D then none else some e
    else
      return none
  else
    return none

/-- The items of a class from an index on. -/
def scanFrom (pattern : Bytes) (c : UInt8) (negated first matched : Bool) (i : Nat) :
    Except Stray (Option (Bool × Nat)) :=
  if _h : i < pattern.length then do
    let b ← byteAt pattern i
    if b = 0x5D ∧ first = false then
      return some (matched != negated, i + 1)
    else if b = 0x5C ∧ i + 1 < pattern.length then
      let e ← byteAt pattern (i + 1)
      scanFrom pattern c negated false (matched || e == c) (i + 2)
    else
      match ← rangeEnd pattern i with
      | some e => scanFrom pattern c negated false (matched || between b e c) (i + 3)
      | none => scanFrom pattern c negated false (matched || b == c) (i + 1)
  else
    return none
termination_by pattern.length - i

/-- The class that is opened at an index. -/
def classFrom (pattern : Bytes) (start : Nat) (c : UInt8) :
    Except Stray (Option (Bool × Nat)) :=
  match pattern[start + 1]? with
  | some b =>
      if b = 0x5E ∨ b = 0x21 then scanFrom pattern c true true false (start + 2)
      else scanFrom pattern c false true false (start + 1)
  | none => scanFrom pattern c false true false (start + 1)

theorem readItem_isSuffix
    (b : UInt8)
    (p : Bytes) :
    (readItem b p).2 <:+ p := by
  unfold readItem
  split
  · exact List.suffix_refl _
  · next e q =>
      split
      · exact List.suffix_cons e q
      · split
        · exact List.suffix_refl _
        · next d r =>
            split
            · exact (List.suffix_cons d r).trans (List.suffix_cons e _)
            · exact List.suffix_refl _

section Scanning

variable {pattern q : Bytes} {i : Nat} {b : UInt8}

/-- A range needs two bytes behind its first one, and they are read only where they are. -/
theorem rangeEnd_eq
    (h : pattern.drop i = b :: q) :
    rangeEnd pattern i =
      .ok (match q with
        | e :: d :: _ => if e = 0x2D ∧ d ≠ 0x5D then some d else none
        | _ => none) := by
  have hlen := length_of_drop_eq_cons h
  have hq := drop_succ_of_drop_eq_cons h
  cases q with
  | nil => rw [rangeEnd, if_neg (by simp [hlen])]; rfl
  | cons e q =>
      cases q with
      | nil => rw [rangeEnd, if_neg (by simp [hlen])]; rfl
      | cons d r =>
          have hlt : i + 2 < pattern.length := by
            simp only [List.length_cons] at hlen
            omega
          rw [rangeEnd, if_pos hlt, byteAt_of_drop_eq_cons hq,
            byteAt_of_drop_eq_cons (drop_succ_of_drop_eq_cons hq)]
          by_cases he : e = 0x2D <;> by_cases hd : d = 0x5D <;>
            simp [he, hd, bind, Except.bind, pure, Except.pure]

/-- One round of the scanner passes the item that is written at its index. -/
theorem scanFrom_item
    {first : Bool}
    (c : UInt8)
    (negated matched : Bool)
    (h : pattern.drop i = b :: q)
    (hb : ¬ (b = 0x5D ∧ first = false)) :
    scanFrom pattern c negated first matched i =
      scanFrom pattern c negated false (matched || (readItem b q).1.holds c)
        (pattern.length - (readItem b q).2.length) := by
  have hlen := length_of_drop_eq_cons h
  have hq := drop_succ_of_drop_eq_cons h
  rw [scanFrom, dif_pos (lt_of_drop_eq_cons h), byteAt_of_drop_eq_cons h, rangeEnd_eq h]
  simp only [bind, Except.bind, if_neg hb]
  -- An item is read by up to two bytes behind its first one, so the cases are as many.
  cases q with
  | nil => simp [hlen, readItem, Item.holds]
  | cons e r =>
      have he := byteAt_of_drop_eq_cons hq
      by_cases hesc : b = 0x5C
      · have hnext : pattern.length - r.length = i + 2 := by
          simp only [List.length_cons] at hlen
          omega
        simp [hesc, he, hnext, lt_of_drop_eq_cons hq, readItem, Item.holds]
      cases r with
      | nil => simp [hesc, hlen, readItem, Item.holds]
      | cons d r =>
          by_cases hrange : e = 0x2D ∧ d ≠ 0x5D
          · have hnext : pattern.length - r.length = i + 3 := by
              simp only [List.length_cons] at hlen
              omega
            simp [hesc, hrange, hnext, readItem, between_eq_holds]
          · have hnext : pattern.length - (e :: d :: r).length = i + 1 := by
              rw [hlen, Nat.add_sub_cancel]
            simp only [hesc, hrange, hnext, readItem, Item.holds, false_and, if_false]

/-- The scanner ends where the items of the class end, by induction on them. -/
theorem scanFrom_eq
    {first : Bool}
    {p : Bytes}
    (c : UInt8)
    (negated matched : Bool)
    (h : pattern.drop i = p) :
    scanFrom pattern c negated first matched i =
      .ok ((readItems first p).map fun r =>
        ((matched || r.1.any fun i => i.holds c) != negated, pattern.length - r.2.length)) := by
  fun_induction readItems first p generalizing i matched with
  | case1 first =>
      have hi : ¬ i < pattern.length := by simpa using h
      rw [scanFrom, dif_neg hi]
      rfl
  | case2 first b q hb =>
      have hlen := length_of_drop_eq_cons h
      rw [scanFrom, dif_pos (lt_of_drop_eq_cons h), byteAt_of_drop_eq_cons h]
      simp [hb, hlen, bind, Except.bind, pure, Except.pure]
  | case3 first b q hb ih =>
      have hsuffix : (readItem b q).2 <:+ pattern :=
        (readItem_isSuffix b q).trans (drop_succ_of_drop_eq_cons h ▸ List.drop_suffix _ _)
      rw [scanFrom_item c negated matched h hb, ih _ (drop_length_sub hsuffix)]
      simp [Bool.or_assoc]
      rfl

end Scanning

/-- The scanner over indices reads within the pattern and finds the class that there is. -/
theorem classFrom_eq
    (pattern : Bytes)
    (start : Nat)
    (c : UInt8) :
    classFrom pattern start c = .ok (classAt pattern start c) := by
  rw [classFrom, classAt, scanClass_eq_readClass]
  cases hp : pattern.drop (start + 1) with
  | nil =>
      have hnone : pattern[start + 1]? = none := by simpa using hp
      rw [hnone]
      simp only [scanFrom_eq c _ _ hp]
      simp [readItems, readClass]
  | cons b q =>
      have hsome : pattern[start + 1]? = some b := by
        rw [← List.head?_drop, hp]
        rfl
      rw [hsome]
      simp only [scanFrom_eq c _ _ hp, scanFrom_eq c _ _ (drop_succ_of_drop_eq_cons hp), readClass]
      split
      · simp [Function.comp_def, Token.takes]
      · simp [Function.comp_def, Token.takes]

/-- The indices between the tokens of a pattern, its beginning and its end among them. -/
inductive Boundary (pattern : Bytes) : Nat → Prop
  | start : Boundary pattern 0
  | next
      {i : Nat}
      {b : UInt8}
      {p : Bytes}
      (hi : Boundary pattern i)
      (hread : pattern.drop i = b :: p) :
      Boundary pattern (pattern.length - (readToken b p).2.length)

theorem Boundary.le_length
    {pattern : Bytes}
    {i : Nat}
    (h : Boundary pattern i) :
    i ≤ pattern.length := by
  cases h with
  | start => exact Nat.zero_le _
  | next => exact Nat.sub_le _ _

theorem readToken_isSuffix
    (b : UInt8)
    (p : Bytes) :
    (readToken b p).2 <:+ p := by
  unfold readToken
  split
  · exact List.suffix_refl p
  · split
    · exact List.suffix_refl p
    · split
      · cases hread : readClass p with
        | none => exact List.suffix_refl p
        | some r =>
            obtain ⟨negated, items, -, htext⟩ := readClass_eq_some_iff.1 hread
            exact htext.isSuffix
      · split
        · split
          · exact List.suffix_refl _
          · exact List.suffix_cons _ _
        · exact List.suffix_refl p

/-- The index behind the token at `i`, if that is no star and takes the byte at `j`. -/
def passAt (pattern : Bytes) (i : Nat) (text : Bytes) (j : Nat) :
    Except Stray (Option Nat) := do
  let b ← byteAt pattern i
  if b = 0x3F then
    return some (i + 1)
  else if b = 0x5B then
    match ← classFrom pattern i (← byteAt text j) with
    | some (true, next) => return some next
    | some (false, _) => return none
    | none => return if (← byteAt text j) = 0x5B then some (i + 1) else none
  else if b = 0x5C ∧ i + 1 < pattern.length then
    return if (← byteAt pattern (i + 1)) = (← byteAt text j) then some (i + 2) else none
  else
    return if b = (← byteAt text j) then some (i + 1) else none

/-- The matcher passes the same token, and reads within the pattern and the text. -/
theorem passAt_eq
    {pattern text p u : Bytes}
    {i j : Nat}
    {b c : UInt8}
    (hp : pattern.drop i = b :: p)
    (ht : text.drop j = c :: u) :
    passAt pattern i text j =
      .ok ((consume? c (b :: p)).map fun q => pattern.length - q.length) := by
  have hb := byteAt_of_drop_eq_cons hp
  have hc := byteAt_of_drop_eq_cons ht
  have hp' := drop_succ_of_drop_eq_cons hp
  have hnext : pattern.length - p.length = i + 1 := by
    rw [length_of_drop_eq_cons hp]
    omega
  simp only [passAt, hb, hc, classFrom_eq, classAt, hp', bind, Except.bind, pure, Except.pure,
    consume?]
  by_cases hany : b = 0x3F
  · simp [hany, hnext]
  by_cases hclass : b = 0x5B
  · subst hclass
    cases hs : scanClass c p with
    | none => by_cases hc : c = 0x5B <;> simp [hc, hnext]
    | some r =>
        obtain ⟨m, q⟩ := r
        cases m <;> simp
  by_cases hesc : b = 0x5C
  · subst hesc
    cases p with
    | nil =>
        have hlast : pattern.length = i + 1 := length_of_drop_eq_cons hp
        by_cases hlone : c = 0x5C <;> simp [hlone, hlast, Ne.symm]
    | cons e q =>
        have hlt := lt_of_drop_eq_cons hp'
        have hend : pattern.length - q.length = i + 2 := by
          rw [length_of_drop_eq_cons hp']
          omega
        by_cases he : e = c <;> simp [hlt, hend, byteAt_of_drop_eq_cons hp', he]
  · simp only [hany, hclass, hesc, false_and, if_false]
    by_cases hbc : b = c <;> simp [hbc, hnext]

/-- A token that is passed ends at the next boundary. -/
theorem Boundary.passed
    {pattern p q : Bytes}
    {i : Nat}
    {b c : UInt8}
    (hi : Boundary pattern i)
    (hp : pattern.drop i = b :: p)
    (hb : b ≠ starMark)
    (hq : consume? c (b :: p) = some q) :
    Boundary pattern (pattern.length - q.length) ∧
      pattern.drop (pattern.length - q.length) = q := by
  rw [consume?_eq_readToken hb] at hq
  split at hq
  · cases hq
    refine ⟨hi.next hp, drop_length_sub ?_⟩
    exact (readToken_isSuffix b p).trans (drop_succ_of_drop_eq_cons hp ▸ List.drop_suffix _ _)
  · cases hq

theorem Boundary.passedStar
    {pattern p : Bytes}
    {i : Nat}
    (hi : Boundary pattern i)
    (hp : pattern.drop i = starMark :: p) :
    Boundary pattern (i + 1) := by
  have hnext := hi.next hp
  rwa [readToken_star, length_of_drop_eq_cons hp, Nat.add_sub_cancel] at hnext

/-- Where the loop stands: an index into the pattern and one into the text, and behind the last
star passed the index into the pattern and the one at which its run ends in the text. -/
structure Cursor where
  patternIndex : Nat
  textIndex : Nat
  star : Option (Nat × Nat)

namespace Cursor

/-- The loop before its first round. -/
def start : Cursor :=
  ⟨0, 0, none⟩

/-- The loop right behind a star, with the run of the star ending in front of the byte at `j`. -/
def behindStar (i j : Nat) : Cursor :=
  ⟨i, j, some (i, j)⟩

/-- Takes both indices back behind the last star, whose run grows by one byte. -/
def resume (k : Cursor) : Cursor ⊕ Bool :=
  match k.star with
  | some (i, j) => .inl (behindStar i (j + 1))
  | none => .inr false

/-- One round of the loop, or the answer. -/
def round (pattern text : Bytes) (k : Cursor) : Except Stray (Cursor ⊕ Bool) := do
  if k.textIndex < text.length then
    if k.patternIndex < pattern.length then
      if (← byteAt pattern k.patternIndex) = starMark then
        return .inl (behindStar (k.patternIndex + 1) k.textIndex)
      else
        match ← passAt pattern k.patternIndex text k.textIndex with
        | some next => return .inl ⟨next, k.textIndex + 1, k.star⟩
        | none => return k.resume
    else
      return k.resume
  else
    return .inr ((← sliceFrom pattern k.patternIndex).all (· == starMark))

/-- Up to `n` rounds of the loop; it ends with its answer. -/
def rounds (pattern text : Bytes) : Nat → Cursor → Except Stray (Cursor ⊕ Bool)
  | 0, k => .ok (.inl k)
  | n + 1, k => do
      match ← k.round pattern text with
      | .inl l => rounds pattern text n l
      | .inr answer => return .inr answer

/-- Where the indices of the loop lie. -/
structure Within (pattern text : Bytes) (k : Cursor) : Prop where
  patternIndex_le : k.patternIndex ≤ pattern.length
  boundary : Boundary pattern k.patternIndex
  textIndex_le : k.textIndex ≤ text.length
  star_boundary : ∀ i j, k.star = some (i, j) → Boundary pattern i
  star_le : ∀ i j, k.star = some (i, j) → j ≤ k.textIndex

/-- The loop stands within the pattern and the text, and where the matcher stands. -/
structure Shows (pattern text : Bytes) (k : Cursor) (s : State) : Prop
    extends k.Within pattern text where
  pattern_eq : s.pattern = pattern.drop k.patternIndex
  text_eq : s.text = text.drop k.textIndex
  star_eq : s.star = k.star.map fun x => (pattern.drop x.1, text.drop x.2)

end Cursor

/-- Up to `n` moves of the matcher; it ends with its answer. -/
def State.moves : Nat → State → State ⊕ Bool
  | 0, s => .inl s
  | n + 1, s =>
      match s.step with
      | .inl t => moves n t
      | .inr answer => .inr answer

namespace Cursor

variable {pattern text : Bytes} {k : Cursor} {s : State}

theorem shows_start
    (pattern text : Bytes) :
    start.Shows pattern text (State.start pattern text) where
  patternIndex_le := Nat.zero_le _
  boundary := .start
  textIndex_le := Nat.zero_le _
  star_boundary := by simp [start]
  star_le := by simp [start]
  pattern_eq := rfl
  text_eq := rfl
  star_eq := rfl

theorem shows_behindStar
    {i j : Nat}
    {p u : Bytes}
    (hi : Boundary pattern i)
    (hj : j ≤ text.length)
    (hp : pattern.drop i = p)
    (hu : text.drop j = u)
    (le : ∀ x, some (p, u) = some x → u.length ≤ x.2.length) :
    (behindStar i j).Shows pattern text ⟨p, u, some (p, u), le⟩ where
  patternIndex_le := hi.le_length
  boundary := hi
  textIndex_le := hj
  star_boundary := by
    rintro _ _ ⟨⟩
    exact hi
  star_le := by
    rintro _ _ ⟨⟩
    exact Nat.le_refl j
  pattern_eq := hp.symm
  text_eq := hu.symm
  star_eq := by simp [behindStar, hp, hu]

namespace Shows

/-- With text left, the loop and the matcher go back to the same place. -/
theorem resume
    (h : k.Shows pattern text s)
    (htext : k.textIndex < text.length) :
    Sum.LiftRel (Shows pattern text) Eq k.resume s.retry := by
  cases hstar : k.star with
  | none =>
      have hnone : s.star = none := by rw [h.star_eq, hstar]; rfl
      rw [Cursor.resume, hstar, State.retry, hnone]
      exact .inr rfl
  | some x =>
      obtain ⟨i, j⟩ := x
      have hj : j < text.length := Nat.lt_of_le_of_lt (h.star_le i j hstar) htext
      have hsome : s.star = some (pattern.drop i, text[j] :: text.drop (j + 1)) := by
        rw [h.star_eq, hstar, Option.map_some, List.drop_eq_getElem_cons hj]
      obtain ⟨pat, txt, st, le⟩ := s
      subst hsome
      rw [Cursor.resume, hstar]
      exact .inl (shows_behindStar (h.star_boundary i j hstar) hj rfl rfl _)

theorem passOne
    {p q u : Bytes}
    {b c : UInt8}
    (h : k.Shows pattern text s)
    (hp : pattern.drop k.patternIndex = b :: p)
    (ht : text.drop k.textIndex = c :: u)
    (hb : b ≠ starMark)
    (hq : consume? c (b :: p) = some q)
    (le : ∀ x, s.star = some x → u.length ≤ x.2.length) :
    (⟨pattern.length - q.length, k.textIndex + 1, k.star⟩ : Cursor).Shows
      pattern text ⟨q, u, s.star, le⟩ where
  patternIndex_le := Nat.sub_le _ _
  boundary := (h.boundary.passed hp hb hq).1
  textIndex_le := lt_of_drop_eq_cons ht
  star_boundary := h.star_boundary
  star_le := fun i j hstar => Nat.le_succ_of_le (h.star_le i j hstar)
  pattern_eq := (h.boundary.passed hp hb hq).2.symm
  text_eq := (drop_succ_of_drop_eq_cons ht).symm
  star_eq := h.star_eq

/-- **One round of the loop is one move of the matcher**, and reads nothing that lies outside
the pattern and the text. -/
theorem round
    (h : k.Shows pattern text s) :
    ∃ r, k.round pattern text = .ok r ∧ Sum.LiftRel (Shows pattern text) Eq r s.step := by
  cases ht : text.drop k.textIndex with
  | nil =>
      have hend : ¬ k.textIndex < text.length := by simpa using ht
      have hslice : sliceFrom pattern k.patternIndex = .ok s.pattern := by
        rw [sliceFrom, if_pos h.patternIndex_le, h.pattern_eq]
      refine ⟨.inr (s.pattern.all (· == starMark)), ?_, ?_⟩
      · rw [Cursor.round, if_neg hend, hslice]
        rfl
      · obtain ⟨pat, txt, st, le⟩ := s
        have htxt : txt = [] := h.text_eq.trans ht
        subst htxt
        exact .inr rfl
  | cons c u =>
      have hlt := lt_of_drop_eq_cons ht
      rw [Cursor.round, if_pos hlt]
      have hresume := h.resume hlt
      obtain ⟨pat, txt, st, le⟩ := s
      have htxt : txt = c :: u := h.text_eq.trans ht
      subst htxt
      cases hp : pattern.drop k.patternIndex with
      | nil =>
          have hend : ¬ k.patternIndex < pattern.length := by simpa using hp
          have hpat : pat = [] := h.pattern_eq.trans hp
          subst hpat
          rw [if_neg hend]
          exact ⟨k.resume, rfl, hresume⟩
      | cons b p =>
          have hpat : pat = b :: p := h.pattern_eq.trans hp
          subst hpat
          rw [if_pos (lt_of_drop_eq_cons hp), byteAt_of_drop_eq_cons hp, passAt_eq hp ht]
          by_cases hb : b = starMark
          · subst hb
            have hnext := drop_succ_of_drop_eq_cons hp
            exact ⟨_, rfl,
              .inl (shows_behindStar (h.boundary.passedStar hp) h.textIndex_le hnext ht _)⟩
          · simp only [State.step, bind, Except.bind, if_neg hb]
            cases hq : consume? c (b :: p) with
            | some q => exact ⟨_, rfl, .inl (h.passOne hp ht hb hq _)⟩
            | none => exact ⟨k.resume, rfl, hresume⟩

theorem round_cases
    (h : k.Shows pattern text s) :
    (∃ l t, k.round pattern text = .ok (.inl l) ∧ s.step = .inl t ∧ l.Shows pattern text t) ∨
      ∃ answer, k.round pattern text = .ok (.inr answer) ∧ s.step = .inr answer := by
  obtain ⟨r, hround, hr⟩ := h.round
  generalize hstep : s.step = m at hr
  cases hr with
  | inl hl => exact .inl ⟨_, _, hround, rfl, hl⟩
  | inr heq => exact .inr ⟨_, hround, congrArg Sum.inr heq.symm⟩

/-- The loop stays with the matcher for any number of rounds. -/
theorem rounds
    (h : k.Shows pattern text s)
    (n : Nat) :
    ∃ r, Cursor.rounds pattern text n k = .ok r ∧
      Sum.LiftRel (Shows pattern text) Eq r (s.moves n) := by
  -- On the number of rounds, from any place at which the two stand together.
  induction n generalizing k s with
  | zero => exact ⟨.inl k, rfl, .inl h⟩
  | succ n ih =>
      rw [Cursor.rounds, State.moves]
      obtain ⟨l, t, hround, hstep, hl⟩ | ⟨answer, hround, hstep⟩ := h.round_cases
      · rw [hround, hstep]
        exact ih hl
      · rw [hround, hstep]
        exact ⟨_, rfl, .inr rfl⟩

end Shows

end Cursor

namespace State

variable {s t : State}

theorem run_of_step_inl
    (h : s.step = .inl t) :
    s.run = t.run := by
  rw [run]
  split
  · next answer hr => simp [h] at hr
  · next u hu =>
      rw [h] at hu
      cases hu
      rfl

theorem run_of_step_inr
    {answer : Bool}
    (h : s.step = .inr answer) :
    s.run = answer := by
  rw [run]
  split
  · next a ha =>
      rw [h] at ha
      cases ha
      rfl
  · next u hu => simp [h] at hu

/-- How many moves are left at most: as many as there are bytes in a pattern of the given size,
and one more, for every byte by which the run of the last star can grow. -/
def effort (s : State) (size : Nat) : Nat :=
  s.slack * (size + 1) + s.pattern.length

/-- A mismatch gives back the pattern behind the last star, at the price of a byte of the text. -/
theorem effort_lt_of_step
    {size : Nat}
    (h : s.step = .inl t)
    (hsize : t.pattern.length ≤ size) :
    t.effort size < s.effort size := by
  unfold effort
  rcases step_decreases h with hslack | ⟨hslack, hpattern⟩
  · have hmul : (t.slack + 1) * (size + 1) ≤ s.slack * (size + 1) :=
      Nat.mul_le_mul_right _ hslack
    rw [Nat.add_one_mul] at hmul
    omega
  · rw [hslack]
    omega

theorem effort_start
    (pattern text : Bytes) :
    (start pattern text).effort pattern.length < (text.length + 2) * (pattern.length + 1) := by
  show (text.length + 1) * (pattern.length + 1) + pattern.length < _
  rw [Nat.add_one_mul (text.length + 1)]
  omega

end State

namespace Cursor

variable {pattern text : Bytes} {k : Cursor} {s : State}

/-- The loop ends, with the answer of the matcher. -/
theorem Shows.rounds_of_effort_lt
    (h : k.Shows pattern text s)
    {n : Nat}
    (hn : s.effort pattern.length < n) :
    Cursor.rounds pattern text n k = .ok (.inr s.run) := by
  induction n generalizing k s with
  | zero => exact absurd hn (Nat.not_lt_zero _)
  | succ n ih =>
      rw [Cursor.rounds]
      obtain ⟨l, t, hround, hstep, hl⟩ | ⟨answer, hround, hstep⟩ := h.round_cases
      · have hsize : t.pattern.length ≤ pattern.length := by
          rw [hl.pattern_eq, List.length_drop]
          exact Nat.sub_le _ _
        have hlt := State.effort_lt_of_step hstep hsize
        rw [hround, State.run_of_step_inl hstep]
        exact ih hl (by omega)
      · rw [hround, State.run_of_step_inr hstep]
        rfl

end Cursor

/-- **The loop over indices stays within the pattern and the text, and ends.**  No round reads
a byte at an index that lies outside of them, and the rest of the pattern is taken from an index
within it.  After any number of rounds the loop stands within the pattern and the text, between
two tokens of the pattern and not in front of the end of the last star's run, and it stands
where the matcher stands after as many moves; or both have answered.  For a pattern of `m` bytes
and a text of `n`, the answer of the matcher comes within `(n + 2) * (m + 1)` rounds. -/
theorem positions_stay_within
    (pattern text : Bytes) :
    (∀ n, ∃ r, Cursor.rounds pattern text n .start = .ok r ∧
      Sum.LiftRel (Cursor.Shows pattern text) Eq r ((State.start pattern text).moves n)) ∧
    Cursor.rounds pattern text ((text.length + 2) * (pattern.length + 1)) .start =
      .ok (.inr (acceptsBytes pattern text)) :=
  ⟨(Cursor.shows_start pattern text).rounds,
    (Cursor.shows_start pattern text).rounds_of_effort_lt (State.effort_start pattern text)⟩

end Glob
end Courier
