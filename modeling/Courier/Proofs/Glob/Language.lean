import Courier.Glob
import Mathlib.Data.List.Infix

/-!
# The language of a glob pattern

A pattern is read from left to right into tokens, and a text is in its language
when the tokens can be laid along it.  The matcher keeps only the last star it
has passed.  What it forgets is never needed: the tokens between two stars take
one byte each, so a longer run of an earlier star moves the later star further
down the text, and the later star could have had the longer run itself.

**Results.**
* `scanItems_eq_readItems`: the scanner of classes reads the items of the grammar.
* `consume?_eq_readToken`: the matcher passes one token that is no star.
* `State.step_inl`, `State.step_inr`: one move keeps what the state stands for.
* `acceptsBytes_iff_matches`: the matcher accepts the language of the pattern,
  as does a search through all runs of all stars.
-/

namespace Courier
namespace Glob

/-- One item of a class. -/
inductive Item where
  | byte (b : UInt8)
  | range (a b : UInt8)

/-- Whether an item holds a byte; the ends of a range stand in either order. -/
def Item.holds : Item → UInt8 → Bool
  | .byte b, c => b == c
  | .range a b, c => (a ≤ c && c ≤ b) || (b ≤ c && c ≤ a)

/-- One token of a pattern. -/
inductive Token where
  | star
  | any
  | byteClass (negated : Bool) (items : List Item)
  | byte (b : UInt8)

/-- Whether a token that stands for one byte takes the byte `c`. -/
def Token.takes : Token → UInt8 → Bool
  | .star, _ => false
  | .any, _ => true
  | .byteClass negated items, c => (items.any fun i => i.holds c) != negated
  | .byte b, c => b == c

/-- The item that starts with `b`, and what follows it: an escaped byte, a range
whose end is no closing bracket, or the byte itself. -/
def readItem (b : UInt8) (p : Bytes) : Item × Bytes :=
  match p with
  | [] => (.byte b, [])
  | e :: q =>
      if b = 0x5C then (.byte e, q)
      else
        match q with
        | [] => (.byte b, [e])
        | h :: r =>
            if e = 0x2D ∧ h ≠ 0x5D then (.range b h, r) else (.byte b, e :: h :: r)

theorem readItem_length_le
    (b : UInt8)
    (p : Bytes) :
    (readItem b p).2.length ≤ p.length := by
  unfold readItem
  split
  · simp
  · split
    · simp
    · split
      · simp
      · split
        · simp only [List.length_cons]
          omega
        · simp

/-- The items of a class up to its closing bracket, and what follows the
bracket; nothing if there is none.  A bracket that comes first is an item. -/
def readItems (first : Bool) (p : Bytes) : Option (List Item × Bytes) :=
  match p with
  | [] => none
  | b :: q =>
      if b = 0x5D ∧ first = false then some ([], q)
      else
        (readItems false (readItem b q).2).map fun r => ((readItem b q).1 :: r.1, r.2)
termination_by p.length
decreasing_by exact Nat.lt_succ_of_le (readItem_length_le b q)

/-- A class behind its opening bracket, and what follows it; nothing if it is
never closed. -/
def readClass (p : Bytes) : Option (Token × Bytes) :=
  match p with
  | [] => none
  | b :: q =>
      if b = 0x5E ∨ b = 0x21 then
        (readItems true q).map fun r => (.byteClass true r.1, r.2)
      else (readItems true (b :: q)).map fun r => (.byteClass false r.1, r.2)

/-- The token that starts with `b`, and what follows it. -/
def readToken (b : UInt8) (p : Bytes) : Token × Bytes :=
  if b = 0x2A then (.star, p)
  else if b = 0x3F then (.any, p)
  else if b = 0x5B then (readClass p).getD (.byte b, p)
  else if b = 0x5C then
    match p with
    | [] => (.byte b, [])
    | e :: q => (.byte e, q)
  else (.byte b, p)

theorem readItems_length_lt
    {first : Bool}
    {p : Bytes}
    {r : List Item × Bytes}
    (h : readItems first p = some r) :
    r.2.length < p.length := by
  fun_induction readItems first p generalizing r with
  | case1 => simp at h
  | case2 first b q hb =>
      simp only [Option.some.injEq] at h
      subst h
      simp
  | case3 first b q hb ih =>
      obtain ⟨s, hs, rfl⟩ := Option.map_eq_some_iff.1 h
      have hlt := ih hs
      have hle := readItem_length_le b q
      simp only [List.length_cons]
      omega

theorem readClass_length_lt
    {p : Bytes}
    {r : Token × Bytes}
    (h : readClass p = some r) :
    r.2.length < p.length := by
  cases p with
  | nil => simp [readClass] at h
  | cons b q =>
      simp only [readClass] at h
      split at h
      · obtain ⟨s, hs, rfl⟩ := Option.map_eq_some_iff.1 h
        exact Nat.lt_succ_of_lt (readItems_length_lt hs)
      · obtain ⟨s, hs, rfl⟩ := Option.map_eq_some_iff.1 h
        exact readItems_length_lt hs

theorem readToken_length_le
    (b : UInt8)
    (p : Bytes) :
    (readToken b p).2.length ≤ p.length := by
  unfold readToken
  split
  · simp
  · split
    · simp
    · split
      · cases h : readClass p with
        | none => simp
        | some r => exact Nat.le_of_lt (readClass_length_lt h)
      · split
        · split <;> simp
        · simp

/-- The tokens of a pattern. -/
def tokens : Bytes → List Token
  | [] => []
  | b :: p => (readToken b p).1 :: tokens (readToken b p).2
termination_by p => p.length
decreasing_by exact Nat.lt_succ_of_le (readToken_length_le b p)

/-- Whether tokens can be laid along a text: a star over any run of bytes, every
other token over one byte that it takes. -/
inductive Matches : List Token → Bytes → Prop
  | done : Matches [] []
  | star
      {ts : List Token}
      {rest : Bytes}
      (run : Bytes)
      (h : Matches ts rest) :
      Matches (.star :: ts) (run ++ rest)
  | one
      {k : Token}
      {c : UInt8}
      {ts : List Token}
      {rest : Bytes}
      (hk : k.takes c = true)
      (h : Matches ts rest) :
      Matches (k :: ts) (c :: rest)

/-- The same by exhaustive search: every run of every star is tried. -/
def search : List Token → Bytes → Bool
  | [], t => t.isEmpty
  | .star :: ts, t => t.tails.any (search ts)
  | _ :: _, [] => false
  | k :: ts, c :: t => k.takes c && search ts t

theorem matches_nil_iff
    {t : Bytes} :
    Matches [] t ↔ t = [] := by
  constructor
  · intro h
    cases h
    rfl
  · rintro rfl
    exact Matches.done

theorem matches_star_iff
    {ts : List Token}
    {t : Bytes} :
    Matches (.star :: ts) t ↔ ∃ u, u <:+ t ∧ Matches ts u := by
  constructor
  · intro h
    cases h with
    | star run h => exact ⟨_, List.suffix_append run _, h⟩
    | one hk _ => simp [Token.takes] at hk
  · rintro ⟨u, ⟨run, rfl⟩, h⟩
    exact Matches.star run h

theorem matches_cons_iff
    {k : Token}
    {c : UInt8}
    {ts : List Token}
    {t : Bytes}
    (hk : k ≠ .star) :
    Matches (k :: ts) (c :: t) ↔ k.takes c = true ∧ Matches ts t := by
  constructor
  · intro h
    generalize hct : c :: t = ct at h
    cases h with
    | star run h => exact absurd rfl hk
    | one hk h =>
        cases hct
        exact ⟨hk, h⟩
  · rintro ⟨hc, h⟩
    exact Matches.one hc h

theorem not_matches_cons_nil
    {k : Token}
    {ts : List Token}
    (hk : k ≠ .star) :
    ¬ Matches (k :: ts) [] := by
  intro h
  generalize ht : ([] : Bytes) = t at h
  cases h with
  | star run h => exact hk rfl
  | one _ _ => cases ht

theorem search_eq_true_iff
    (ts : List Token)
    (t : Bytes) :
    search ts t = true ↔ Matches ts t := by
  induction ts generalizing t with
  | nil => rw [search, matches_nil_iff, List.isEmpty_iff]
  | cons k ts ih =>
      by_cases hk : k = .star
      · subst hk
        rw [search, matches_star_iff, List.any_eq_true]
        simp only [List.mem_tails, ih]
      · cases t with
        | nil => simp [search, not_matches_cons_nil hk]
        | cons c t => simp [search, matches_cons_iff hk, ih]

/-- Tokens without a star are laid along as many bytes as they are, from the
front of the text. -/
theorem matches_append_of_no_star
    {passed ts : List Token}
    {t : Bytes}
    (hpassed : ∀ k, k ∈ passed → k ≠ .star)
    (h : Matches (passed ++ ts) t) :
    ∃ u, u <:+ t ∧ t.length = passed.length + u.length ∧ Matches ts u := by
  induction passed generalizing t with
  | nil => exact ⟨t, List.suffix_refl t, by simp, h⟩
  | cons k passed ih =>
      have hk : k ≠ .star := hpassed k List.mem_cons_self
      cases t with
      | nil => exact absurd h (not_matches_cons_nil hk)
      | cons c t =>
          have hrest := ((matches_cons_iff hk).1 h).2
          obtain ⟨u, hu, hlen, hm⟩ :=
            ih (fun k hk => hpassed k (List.mem_cons_of_mem _ hk)) hrest
          refine ⟨u, hu.trans (List.suffix_cons c t), ?_, hm⟩
          simp only [List.length_cons]
          omega

theorem between_eq_holds
    (a b c : UInt8) :
    between a b c = (Item.range a b).holds c := by
  have hab := UInt8.le_total a b
  simp only [between, Item.holds]
  split
  · next h =>
      by_cases hba : b ≤ c ∧ c ≤ a
      · have := UInt8.le_antisymm h (UInt8.le_trans hba.1 hba.2)
        grind
      · grind
  · next h => grind

/-- The scanner of a class reads the items that the grammar reads, and says
whether one of them holds the byte. -/
theorem scanItems_eq_readItems
    (c : UInt8)
    (first matched : Bool)
    (p : Bytes) :
    scanItems c first matched p =
      (readItems first p).map fun r => (matched || r.1.any fun i => i.holds c, r.2) := by
  fun_induction scanItems c first matched p with
  | case1 => simp [readItems]
  | case2 first matched b hb => simp [readItems, hb]
  | case3 first matched b hb => rw [readItems]; simp [readItems, hb, readItem]
  | case4 first matched b e q hb => simp [readItems, hb]
  | case5 first matched e q hb ih =>
      rw [readItems, if_neg hb, ih]
      simp [readItem, Item.holds, Bool.or_assoc]
      rfl
  | case6 first matched b e hb hesc ih =>
      rw [readItems, if_neg hb, ih]
      simp [readItem, hesc, Item.holds, Bool.or_assoc]
      rfl
  | case7 first matched b e hb hesc h r hrange ih =>
      rw [readItems, if_neg hb, ih]
      simp [readItem, hesc, hrange, between_eq_holds, Bool.or_assoc]
      rfl
  | case8 first matched b e hb hesc h r hrange ih =>
      rw [readItems, if_neg hb, ih]
      simp [readItem, hesc, hrange, Item.holds, Bool.or_assoc]
      rfl

/-- Whether a class is closed and where it ends does not depend on the byte. -/
theorem scanClass_eq_readClass
    (c : UInt8)
    (p : Bytes) :
    scanClass c p = (readClass p).map fun r => (r.1.takes c, r.2) := by
  cases p with
  | nil => rfl
  | cons b q =>
      simp only [scanClass, readClass, scanItems_eq_readItems]
      split
      · simp only [Option.map_map]
        congr 1
        funext r
        simp [Token.takes]
      · simp only [Option.map_map]
        congr 1
        funext r
        simp [Token.takes]

theorem readToken_star
    (p : Bytes) :
    readToken starMark p = (.star, p) := by
  simp [readToken, starMark]

theorem readClass_ne_star
    {p : Bytes}
    {r : Token × Bytes}
    (h : readClass p = some r) :
    r.1 ≠ .star := by
  cases p with
  | nil => simp [readClass] at h
  | cons b q =>
      simp only [readClass] at h
      split at h
      · obtain ⟨s, _, rfl⟩ := Option.map_eq_some_iff.1 h
        simp
      · obtain ⟨s, _, rfl⟩ := Option.map_eq_some_iff.1 h
        simp

theorem readToken_ne_star
    {b : UInt8}
    (hb : b ≠ starMark)
    (p : Bytes) :
    (readToken b p).1 ≠ .star := by
  have hb' : b ≠ 0x2A := hb
  unfold readToken
  rw [if_neg hb']
  split
  · simp
  · split
    · cases hr : readClass p with
      | none => simp
      | some r => simpa using readClass_ne_star hr
    · split
      · cases p <;> simp
      · simp

theorem consume?_eq_readToken
    {b : UInt8}
    (hb : b ≠ starMark)
    (c : UInt8)
    (p : Bytes) :
    consume? c (b :: p) =
      if (readToken b p).1.takes c = true then some (readToken b p).2 else none := by
  have hstar : b ≠ 0x2A := hb
  simp only [consume?, readToken, if_neg hstar, scanClass_eq_readClass]
  by_cases hany : b = 0x3F
  · simp [hany, Token.takes]
  by_cases hclass : b = 0x5B
  · subst hclass
    cases hr : readClass p with
    | none => by_cases hc : c = 0x5B <;> simp [Token.takes, hc, Ne.symm]
    | some r => cases htake : r.1.takes c <;> simp [htake]
  by_cases hesc : b = 0x5C
  · subst hesc
    cases p with
    | nil => by_cases hc : c = 0x5C <;> simp [Token.takes, hc, Ne.symm]
    | cons e q => simp [Token.takes]
  · simp [hany, hclass, hesc, Token.takes]

theorem tokens_cons
    (b : UInt8)
    (p : Bytes) :
    tokens (b :: p) = (readToken b p).1 :: tokens (readToken b p).2 := by
  rw [tokens]

theorem tokens_of_consume?_some
    {b c : UInt8}
    {p q : Bytes}
    (hb : b ≠ starMark)
    (h : consume? c (b :: p) = some q) :
    ∃ k, k ≠ Token.star ∧ tokens (b :: p) = k :: tokens q ∧ k.takes c = true := by
  rw [consume?_eq_readToken hb] at h
  split at h
  · next htakes =>
      cases h
      exact ⟨_, readToken_ne_star hb p, tokens_cons b p, htakes⟩
  · cases h

/-- Where the matcher passes no token, the first one does not take the byte. -/
theorem not_matches_of_consume?_none
    {b c : UInt8}
    {p u : Bytes}
    (hb : b ≠ starMark)
    (h : consume? c (b :: p) = none) :
    ¬ Matches (tokens (b :: p)) (c :: u) := by
  rw [consume?_eq_readToken hb] at h
  split at h
  · cases h
  · next htakes =>
      rw [tokens_cons, matches_cons_iff (readToken_ne_star hb p)]
      exact fun hm => htakes hm.1

theorem matches_tokens_nil_iff
    (p : Bytes) :
    Matches (tokens p) [] ↔ p.all (· == starMark) = true := by
  induction p with
  | nil => simp [tokens, matches_nil_iff]
  | cons b p ih =>
      rw [tokens_cons]
      by_cases hb : b = starMark
      · subst hb
        rw [readToken_star, matches_star_iff, List.all_cons, beq_self_eq_true, Bool.true_and, ← ih]
        simp
      · simp [not_matches_cons_nil (readToken_ne_star hb p), hb]

namespace State

/-- What has been passed since the last star: tokens that take one byte each,
and as many bytes of the text. -/
def Anchored (s : State) : Prop :=
  ∀ p t, s.star = some (p, t) →
    ∃ passed run,
      (∀ k, k ∈ passed → k ≠ Token.star) ∧
      tokens p = passed ++ tokens s.pattern ∧
      t = run ++ s.text ∧
      run.length = passed.length

/-- What a state stands for: what is left of the pattern matches what is left of
the text, or the pattern behind the last star matches further down the text. -/
def Promising (s : State) : Prop :=
  Matches (tokens s.pattern) s.text ∨
    ∃ p c t u, s.star = some (p, c :: t) ∧ u <:+ t ∧ Matches (tokens p) u

theorem anchored_start
    (pattern text : Bytes) :
    (start pattern text).Anchored := by
  intro p t h
  simp [start] at h

theorem promising_start_iff
    (pattern text : Bytes) :
    (start pattern text).Promising ↔ Matches (tokens pattern) text := by
  simp [Promising, start]

/-- At the end of the text a longer run of the last star leaves too few bytes
for the tokens behind it. -/
theorem Anchored.promising_iff_of_text_nil
    {s : State}
    (hs : s.Anchored)
    (htext : s.text = []) :
    s.Promising ↔ Matches (tokens s.pattern) [] := by
  constructor
  · rintro (h | ⟨p, c, t, u, hstar, hu, h⟩)
    · rwa [htext] at h
    · obtain ⟨passed, run, hpassed, hp, hrun, hlen⟩ := hs _ _ hstar
      rw [hp] at h
      obtain ⟨w, hw, hlen', _⟩ := matches_append_of_no_star hpassed h
      have hule := hu.length_le
      have hct := congrArg List.length hrun
      simp only [htext, List.append_nil, List.length_cons] at hct
      omega
  · intro h
    left
    rwa [htext]

/-- A star that is passed takes over from the one before it: where the pattern
behind the earlier star matches further down, so does the pattern behind the later one. -/
theorem Anchored.matches_star_of_promising
    {s : State}
    {p : Bytes}
    (hs : s.Anchored)
    (hp : s.pattern = starMark :: p)
    (h : s.Promising) :
    Matches (.star :: tokens p) s.text := by
  have hpat : tokens s.pattern = .star :: tokens p := by
    rw [hp, tokens_cons, readToken_star]
  rcases h with h | ⟨q, c, t, u, hstar, hu, h⟩
  · rwa [hpat] at h
  · obtain ⟨passed, run, hpassed, hq, hrun, hlen⟩ := hs _ _ hstar
    rw [hq, hpat] at h
    obtain ⟨w, hw, hlen', hm⟩ := matches_append_of_no_star hpassed h
    -- As many bytes as tokens have been passed, so `w` starts no earlier than the text.
    have hwt : w <:+ s.text := by
      have h₁ : w <:+ run ++ s.text := by
        rw [← hrun]
        exact (hw.trans hu).trans (List.suffix_cons c t)
      refine List.suffix_of_suffix_length_le h₁ (List.suffix_append run s.text) ?_
      have hule := hu.length_le
      have hct := congrArg List.length hrun
      simp only [List.length_append, List.length_cons] at hct
      omega
    obtain ⟨v, hv, hm⟩ := matches_star_iff.1 hm
    exact matches_star_iff.2 ⟨v, hv.trans hwt, hm⟩

theorem retry_inl
    {s t : State}
    (hfail : ¬ Matches (tokens s.pattern) s.text)
    (h : s.retry = .inl t) :
    t.Anchored ∧ (s.Promising ↔ t.Promising) := by
  unfold retry at h
  split at h
  · simp at h
  · simp at h
  · next p c u hstar =>
      simp only [Sum.inl.injEq] at h
      subst h
      constructor
      · intro q v hq
        simp only [Option.some.injEq, Prod.mk.injEq] at hq
        obtain ⟨rfl, rfl⟩ := hq
        exact ⟨[], [], by simp, by simp, by simp, rfl⟩
      · constructor
        · rintro (hm | ⟨q, d, v, w, hq, hw, hm⟩)
          · exact absurd hm hfail
          · rw [hstar] at hq
            simp only [Option.some.injEq, Prod.mk.injEq, List.cons.injEq] at hq
            obtain ⟨rfl, rfl, rfl⟩ := hq
            by_cases hwu : w = u
            · subst hwu
              exact Or.inl hm
            · right
              cases u with
              | nil => exact absurd (List.suffix_nil.1 hw) hwu
              | cons e u =>
                  refine ⟨p, e, u, w, rfl, ?_, hm⟩
                  exact (List.suffix_cons_iff.1 hw).resolve_left hwu
        · rintro (hm | ⟨q, d, v, w, hq, hw, hm⟩)
          · exact Or.inr ⟨p, c, u, u, hstar, List.suffix_refl u, hm⟩
          · simp only [Option.some.injEq, Prod.mk.injEq] at hq
            obtain ⟨rfl, rfl⟩ := hq
            exact Or.inr ⟨p, c, d :: v, w, hstar, hw.trans (List.suffix_cons d v), hm⟩

theorem retry_inr
    {s : State}
    {answer : Bool}
    (hfail : ¬ Matches (tokens s.pattern) s.text)
    (h : s.retry = .inr answer) :
    answer = true ↔ s.Promising := by
  -- It only gives up without a star, or with one that has taken the whole text.
  have hfalse : answer = false ∧ ∀ p c t, s.star ≠ some (p, c :: t) := by
    unfold retry at h
    split at h
    · next hstar =>
        simp only [Sum.inr.injEq] at h
        exact ⟨h.symm, by simp [hstar]⟩
    · next hstar =>
        simp only [Sum.inr.injEq] at h
        exact ⟨h.symm, by simp [hstar]⟩
    · simp at h
  rw [hfalse.1]
  constructor
  · intro hc
    cases hc
  · rintro (hm | ⟨p, c, t, u, hstar, _⟩)
    · exact absurd hm hfail
    · exact absurd hstar (hfalse.2 p c t)

/-- Passing a star moves the anchor to it. -/
theorem Anchored.passStar_inl
    {s : State}
    {c : UInt8}
    {p u : Bytes}
    (hs : s.Anchored)
    (hp : s.pattern = starMark :: p)
    (htext : s.text = c :: u)
    (le : ∀ x, some (p, c :: u) = some x → (c :: u).length ≤ x.2.length) :
    (State.mk p (c :: u) (some (p, c :: u)) le).Anchored ∧
      (s.Promising ↔ (State.mk p (c :: u) (some (p, c :: u)) le).Promising) := by
  constructor
  · intro q v hq
    simp only [Option.some.injEq, Prod.mk.injEq] at hq
    obtain ⟨rfl, rfl⟩ := hq
    exact ⟨[], [], by simp, by simp, by simp, rfl⟩
  · constructor
    · intro hpr
      obtain ⟨v, hv, hm⟩ := matches_star_iff.1 (hs.matches_star_of_promising hp hpr)
      rw [htext] at hv
      rcases List.suffix_cons_iff.1 hv with rfl | hv
      · exact Or.inl hm
      · exact Or.inr ⟨p, c, u, v, rfl, hv, hm⟩
    · intro hpr
      left
      rw [hp, tokens_cons, readToken_star, htext, matches_star_iff]
      rcases hpr with hm | ⟨q, d, v, w, hq, hw, hm⟩
      · exact ⟨c :: u, List.suffix_refl _, hm⟩
      · simp only [Option.some.injEq, Prod.mk.injEq, List.cons.injEq] at hq
        obtain ⟨rfl, rfl, rfl⟩ := hq
        exact ⟨w, hw.trans (List.suffix_cons c u), hm⟩

/-- Passing a token that takes one byte keeps the anchor where it is. -/
theorem Anchored.passOne_inl
    {s : State}
    {b c : UInt8}
    {p q u : Bytes}
    (hs : s.Anchored)
    (hp : s.pattern = b :: p)
    (htext : s.text = c :: u)
    (hb : b ≠ starMark)
    (hq : consume? c (b :: p) = some q)
    (le : ∀ x, s.star = some x → u.length ≤ x.2.length) :
    (State.mk q u s.star le).Anchored ∧
      (s.Promising ↔ (State.mk q u s.star le).Promising) := by
  obtain ⟨k, hk, htokens, htakes⟩ := tokens_of_consume?_some hb hq
  constructor
  · intro r v hr
    obtain ⟨passed, run, hpassed, hr', hrun, hlen⟩ := hs r v hr
    refine ⟨passed ++ [k], run ++ [c], ?_, ?_, ?_, ?_⟩
    · intro j hj
      rcases List.mem_append.1 hj with hj | hj
      · exact hpassed j hj
      · rw [List.mem_singleton.1 hj]
        exact hk
    · rw [hr', hp, htokens, List.append_assoc]
      rfl
    · rw [hrun, htext, List.append_assoc]
      rfl
    · simp [hlen]
  · have hcons : Matches (tokens s.pattern) s.text ↔ Matches (tokens q) u := by
      rw [hp, htokens, htext, matches_cons_iff hk, and_iff_right htakes]
    simp only [Promising, hcons]

/-- One move keeps the anchor and what the state stands for. -/
theorem step_inl
    {s t : State}
    (hs : s.Anchored)
    (h : s.step = .inl t) :
    t.Anchored ∧ (s.Promising ↔ t.Promising) := by
  unfold step at h
  split at h
  · simp at h
  · next c u le htext _ =>
      split at h
      · next hp =>
          refine retry_inl ?_ h
          simp [hp, htext, tokens, matches_nil_iff]
      · next b p hp =>
          split at h
          · next hb =>
              subst hb
              cases h
              exact hs.passStar_inl hp htext _
          · next hb =>
              split at h
              · next q hq =>
                  cases h
                  exact hs.passOne_inl hp htext hb hq _
              · next hq =>
                  refine retry_inl ?_ h
                  rw [hp, htext]
                  exact not_matches_of_consume?_none hb hq

theorem step_inr
    {s : State}
    {answer : Bool}
    (hs : s.Anchored)
    (h : s.step = .inr answer) :
    answer = true ↔ s.Promising := by
  unfold step at h
  split at h
  · next htext _ =>
      simp only [Sum.inr.injEq] at h
      rw [hs.promising_iff_of_text_nil htext, matches_tokens_nil_iff, h]
  · next c u le htext _ =>
      split at h
      · next hp =>
          refine retry_inr ?_ h
          simp [hp, htext, tokens, matches_nil_iff]
      · next b p hp =>
          split at h
          · simp at h
          · next hb =>
              split at h
              · simp at h
              · next hq =>
                  refine retry_inr ?_ h
                  rw [hp, htext]
                  exact not_matches_of_consume?_none hb hq

/-- A whole run answers whether its first state promised a match. -/
theorem run_eq_true_iff
    (s : State)
    (hs : s.Anchored) :
    s.run = true ↔ s.Promising := by
  induction s using run.induct with
  | case1 s answer h =>
      rw [run]
      split
      · next b hb =>
          rw [h] at hb
          cases hb
          exact step_inr hs h
      · next t ht => simp [h] at ht
  | case2 s t h ih =>
      obtain ⟨ht, hiff⟩ := step_inl hs h
      rw [run]
      split
      · next b hb => simp [h] at hb
      · next u hu =>
          rw [h] at hu
          cases hu
          rw [hiff]
          exact ih ht

end State

/-- **The matcher accepts the language of the pattern**: a text is accepted
exactly when the tokens of the pattern can be laid along it, and so exactly when
the search through all runs of all stars finds a way to do so. -/
theorem acceptsBytes_iff_matches
    (pattern text : Bytes) :
    (acceptsBytes pattern text = true ↔ Matches (tokens pattern) text) ∧
      acceptsBytes pattern text = search (tokens pattern) text := by
  have hrun : acceptsBytes pattern text = true ↔ Matches (tokens pattern) text := by
    unfold acceptsBytes
    rw [State.run_eq_true_iff _ (State.anchored_start pattern text),
      State.promising_start_iff]
  refine ⟨hrun, ?_⟩
  rw [Bool.eq_iff_iff, hrun, search_eq_true_iff]

end Glob
end Courier
