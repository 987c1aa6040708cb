import Courier.Proofs.Promoter.Names
import Courier.Proofs.Text.Numeral
import Mathlib.Algebra.Group.Int.Defs

/-!
# Which settings are accepted

The settings of the promoter are read from variables one after the other.  Each variable is
subject to one condition, the conditions are checked in a fixed order, and the first that
does not hold is the failure; what stands in the variables behind it does not matter.

**Results.**
* `Requirement`, `requirements`: the conditions in their order.
* `FirstUnmet`, `FailsWith`: failing with the first condition that does not hold.
* `Describes`: the settings that variables describe.
* `settings_of_variables`: when settings are read, what they are, and the failure otherwise.
-/

namespace Courier

open Numeral (Natural Integer)

namespace Settings

/-- A text with white space around it, or none, is a numeral of a kind. -/
def Spells (numeral : List Char → Prop) (raw : String) : Prop :=
  ∃ body, Text.Padded raw.toList body ∧ numeral body

/-- A setting is what its variable denotes, or the default if that is not set. -/
def Setting {α : Type} (raw : Option String) (default : α) (denotes : α → List Char → Prop)
    (v : α) : Prop :=
  match raw with
  | none => v = default
  | some raw => Spells (denotes v) raw

section Value

variable {α : Type} {read : List Char → Option α} {denotes : α → List Char → Prop}
variable (hread : ∀ cs v, read cs = some v ↔ denotes v cs)
include hread

theorem read_trim_iff
    {raw : String}
    {v : α} :
    read (Text.trim raw).toList = some v ↔ Spells (denotes v) raw := by
  rw [hread]
  constructor
  · intro h
    exact ⟨_, Text.trim_eq_iff.1 rfl, h⟩
  · rintro ⟨body, hpadded, h⟩
    have htrim : Text.trim raw = String.ofList body := by
      rw [Text.trim_eq_iff, String.toList_ofList]
      exact hpadded
    rw [htrim, String.toList_ofList]
    exact h

theorem value_eq_ok_iff
    {vars : Variables}
    {name : String}
    {default v : α} :
    value vars name default read = .ok v ↔ Setting (vars name) default denotes v := by
  rw [value]
  cases vars name with
  | none => simp [Setting, eq_comm]
  | some raw =>
      rw [Setting.eq_def]
      simp only
      rw [← read_trim_iff hread]
      cases read (Text.trim raw).toList with
      | none => simp
      | some w => simp

theorem value_eq_error_iff
    {vars : Variables}
    {name : String}
    {default : α}
    {e : SettingsError} :
    value vars name default read = .error e ↔
      ∃ raw, vars name = some raw ∧ (∀ v, ¬ Spells (denotes v) raw) ∧ e = .invalid name raw := by
  rw [value]
  cases vars name with
  | none => simp
  | some raw =>
      have hnone : (∀ v, ¬ Spells (denotes v) raw) ↔ read (Text.trim raw).toList = none := by
        simp only [← read_trim_iff hread]
        exact Option.eq_none_iff_forall_ne_some.symm
      simp only [Option.some.injEq, exists_eq_left', hnone]
      cases read (Text.trim raw).toList with
      | none => simp [eq_comm]
      | some w => simp

end Value

theorem natural64_eq_some_iff
    (cs : List Char)
    (n : Nat) :
    natural Numeral.maxNat64 cs = some n ↔ Natural n cs ∧ n < 2 ^ 64 := by
  rw [natural, Numeral.natural?_eq_some_iff, Nat.lt_iff_le_pred (by decide)]
  rfl

theorem natural32_eq_some_iff
    (cs : List Char)
    (n : UInt32) :
    (natural Numeral.maxNat32 cs).map UInt32.ofNat = some n ↔ Natural n.toNat cs := by
  simp only [natural, Option.map_eq_some_iff, Numeral.natural?_eq_some_iff]
  constructor
  · rintro ⟨m, ⟨h, hm⟩, rfl⟩
    rw [UInt32.toNat_ofNat_of_lt' (Nat.lt_of_le_of_lt hm (by decide))]
    exact h
  · intro h
    exact ⟨n.toNat, ⟨h, Nat.le_of_lt_succ n.toNat_lt⟩, UInt32.ofNat_toNat⟩

theorem int64_eq_some_iff
    (cs : List Char)
    (i : Int64) :
    int64 cs = some i ↔ Integer i.toInt cs := by
  simp only [int64, Option.map_eq_some_iff, Numeral.integer?_eq_some_iff]
  constructor
  · rintro ⟨j, ⟨h, hleast, hmost⟩, rfl⟩
    rw [Int64.toInt_ofInt_of_le hleast (Int.lt_add_one_of_le hmost)]
    exact h
  · intro h
    exact ⟨i.toInt, ⟨h, i.le_toInt, Int.le_of_lt_add_one i.toInt_lt⟩, Int64.ofInt_toInt i⟩

/-- The numerals of a number of milliseconds. -/
def Millis (d : Duration) (cs : List Char) : Prop :=
  ∃ n, Natural n cs ∧ n < 2 ^ 64 ∧ d.nanos = n * 1000000

theorem nanos_ofMillis_ofNat
    {n : Nat}
    (hn : n < 2 ^ 64) :
    (Duration.ofMillis (.ofNat n)).nanos = n * 1000000 := by
  have hof : (Duration.ofMillis (.ofNat n)).nanos = (UInt64.ofNat n).toNat * 1000000 := rfl
  rw [hof, UInt64.toNat_ofNat', Nat.mod_eq_of_lt hn]

theorem millis_eq_some_iff
    (cs : List Char)
    (d : Duration) :
    millis cs = some d ↔ Millis d cs := by
  simp only [millis, Option.map_eq_some_iff, natural64_eq_some_iff]
  constructor
  · rintro ⟨n, ⟨h, hn⟩, rfl⟩
    exact ⟨n, h, hn, nanos_ofMillis_ofNat hn⟩
  · rintro ⟨n, h, hn, hd⟩
    refine ⟨n, ⟨h, hn⟩, ?_⟩
    rw [Duration.mk.injEq, nanos_ofMillis_ofNat hn, hd]

/-- Every number of 64 bits can be a number of milliseconds. -/
theorem exists_millis_iff
    (cs : List Char) :
    (∃ n, Natural n cs ∧ n < 2 ^ 64) ↔ ∃ d, Millis d cs :=
  ⟨fun ⟨n, h, hn⟩ => ⟨_, n, h, hn, nanos_ofMillis_ofNat hn⟩, fun ⟨_, n, h, hn, _⟩ => ⟨n, h, hn⟩⟩

theorem exists_positive_millis_iff
    (cs : List Char) :
    (∃ n, Natural n cs ∧ 0 < n ∧ n < 2 ^ 64) ↔ ∃ d, Millis d cs ∧ 0 < d.nanos := by
  constructor
  · rintro ⟨n, h, hpos, hn⟩
    have hnanos := nanos_ofMillis_ofNat hn
    exact ⟨_, ⟨n, h, hn, hnanos⟩, by omega⟩
  · rintro ⟨d, ⟨n, h, hn, hnanos⟩, hpos⟩
    exact ⟨n, h, by omega, hn⟩

end Settings

/-- A condition on one variable. -/
inductive Requirement where
  /-- The variable is not set, or holds a numeral of a kind with white space around it. -/
  | numeral (name : String) (kind : List Char → Prop)
  /-- The variable lists one name at least. -/
  | names (name : String)

namespace Requirement

/-- The variable that is subject to the condition. -/
def variableName : Requirement → String
  | numeral name _ | names name => name

/-- The condition holds. -/
def Met (vars : Variables) : Requirement → Prop
  | numeral name kind => ∀ raw, vars name = some raw → Settings.Spells kind raw
  | names name => ∃ ns, ns ≠ [] ∧ PromoterSettings.Lists ((vars name).getD "") ns

/-- The failure if it does not: it shows the variable as it was set. -/
def failure (vars : Variables) : Requirement → SettingsError
  | numeral name _ => .invalid name ((vars name).getD "")
  | names name => .missing name

/-- Only the one variable matters. -/
theorem congr
    {vars other : Variables}
    {r : Requirement}
    (h : other r.variableName = vars r.variableName) :
    (r.Met other ↔ r.Met vars) ∧ r.failure other = r.failure vars := by
  cases r with
  | numeral name kind =>
      rw [variableName] at h
      simp only [Met, failure, h, and_self]
  | names name =>
      rw [variableName] at h
      simp only [Met, failure, h, and_self]

end Requirement

/-- The failure of the first of some conditions that does not hold. -/
def FirstUnmet (vars : Variables) (rs : List Requirement) (e : SettingsError) : Prop :=
  ∃ before r after, rs = before ++ r :: after ∧ (∀ q ∈ before, q.Met vars) ∧ ¬ r.Met vars ∧
    e = r.failure vars

section FirstUnmet

variable {vars : Variables} {rs qs : List Requirement} {e : SettingsError}

theorem firstUnmet_nil :
    ¬ FirstUnmet vars [] e := by
  rintro ⟨before, r, after, h, -⟩
  exact absurd h (by simp)

theorem firstUnmet_cons
    {r : Requirement} :
    FirstUnmet vars (r :: rs) e ↔
      (¬ r.Met vars ∧ e = r.failure vars) ∨ (r.Met vars ∧ FirstUnmet vars rs e) := by
  constructor
  · rintro ⟨before, q, after, h, hbefore, hq, he⟩
    cases before with
    | nil =>
        obtain ⟨rfl, -⟩ := List.cons.inj h
        exact Or.inl ⟨hq, he⟩
    | cons p before =>
        obtain ⟨rfl, hrest⟩ := List.cons.inj h
        exact Or.inr ⟨hbefore r List.mem_cons_self, before, q, after, hrest,
          fun p hp => hbefore p (List.mem_cons_of_mem r hp), hq, he⟩
  · rintro (⟨hr, he⟩ | ⟨hr, before, q, after, h, hbefore, hq, he⟩)
    · exact ⟨[], r, rs, rfl, fun _ hp => absurd hp List.not_mem_nil, hr, he⟩
    · exact ⟨r :: before, q, after, congrArg (r :: ·) h,
        List.forall_mem_cons.2 ⟨hr, hbefore⟩, hq, he⟩

theorem firstUnmet_append :
    FirstUnmet vars (rs ++ qs) e ↔
      FirstUnmet vars rs e ∨ ((∀ r ∈ rs, r.Met vars) ∧ FirstUnmet vars qs e) := by
  induction rs with
  | nil => simp [firstUnmet_nil]
  | cons r rs ih =>
      rw [List.cons_append, firstUnmet_cons, firstUnmet_cons, ih, List.forall_mem_cons,
        and_or_left, or_assoc, and_assoc]

theorem FirstUnmet.not_all_met
    (h : FirstUnmet vars rs e) :
    ¬ ∀ r ∈ rs, r.Met vars := by
  obtain ⟨before, r, after, rfl, -, hr, -⟩ := h
  exact fun hall => hr (hall r (by simp))

/-- If not all hold, one is the first. -/
theorem exists_firstUnmet
    (h : ¬ ∀ r ∈ rs, r.Met vars) :
    ∃ e, FirstUnmet vars rs e := by
  induction rs with
  | nil => exact absurd (fun r hr => absurd hr List.not_mem_nil) h
  | cons r rs ih =>
      by_cases hr : r.Met vars
      · obtain ⟨e, he⟩ := ih fun hall => h (List.forall_mem_cons.2 ⟨hr, hall⟩)
        exact ⟨e, firstUnmet_cons.2 (Or.inr ⟨hr, he⟩)⟩
      · exact ⟨_, firstUnmet_cons.2 (Or.inl ⟨hr, rfl⟩)⟩

/-- What stands in other variables than those that were looked at does not matter. -/
theorem FirstUnmet.congr
    {before after : List Requirement}
    {r : Requirement}
    {other : Variables}
    (hbefore : ∀ q ∈ before, q.Met vars)
    (hr : ¬ r.Met vars)
    (hother : ∀ q ∈ before ++ [r], other q.variableName = vars q.variableName) :
    FirstUnmet other (before ++ r :: after) (r.failure vars) := by
  obtain ⟨hmet, hfailure⟩ := Requirement.congr (hother r (by simp))
  refine ⟨before, r, after, rfl, fun q hq => ?_, fun h => hr (hmet.1 h), hfailure.symm⟩
  exact (Requirement.congr (hother q (List.mem_append_left _ hq))).1.2 (hbefore q hq)

end FirstUnmet

/-- A reading checks conditions in order: it fails with the first that does not hold, and
not otherwise. -/
def FailsWith {α : Type} (vars : Variables) (rs : List Requirement)
    (x : Except SettingsError α) : Prop :=
  ∀ e, x = .error e ↔ FirstUnmet vars rs e

namespace FailsWith

variable {α β : Type} {vars : Variables} {rs qs : List Requirement}
variable {x : Except SettingsError α}

theorem ok
    (a : α) :
    FailsWith vars [] (.ok a : Except SettingsError α) :=
  fun e => ⟨fun h => absurd h (by simp), fun h => absurd h firstUnmet_nil⟩

theorem isOk_iff
    (h : FailsWith vars rs x) :
    (∃ a, x = .ok a) ↔ ∀ r ∈ rs, r.Met vars := by
  constructor
  · rintro ⟨a, rfl⟩
    by_contra hall
    obtain ⟨e, he⟩ := exists_firstUnmet hall
    exact absurd ((h e).2 he) (by simp)
  · intro hall
    cases x with
    | ok a => exact ⟨a, rfl⟩
    | error e => exact absurd hall ((h e).1 rfl).not_all_met

/-- A reading behind another one is reached only if the conditions of that one hold. -/
theorem bind
    (hx : FailsWith vars rs x)
    {f : α → Except SettingsError β}
    (hf : ∀ a, FailsWith vars qs (f a)) :
    FailsWith vars (rs ++ qs) (x >>= f) := by
  intro e
  rw [firstUnmet_append]
  cases x with
  | ok a =>
      have hall := hx.isOk_iff.1 ⟨a, rfl⟩
      have hnone : ¬ FirstUnmet vars rs e := fun h => h.not_all_met hall
      rw [or_iff_right hnone, and_iff_right hall]
      exact hf a e
  | error d =>
      have hsome : ¬ ∀ r ∈ rs, r.Met vars := ((hx d).1 rfl).not_all_met
      have herror : (.error d >>= f : Except SettingsError β) = .error d := rfl
      rw [or_iff_left fun h => hsome h.1, ← hx e, herror, Except.error.injEq, Except.error.injEq]

/-- The same, with one condition in front. -/
theorem first
    {r : Requirement}
    (hx : FailsWith vars [r] x)
    {f : α → Except SettingsError β}
    (hf : ∀ a, FailsWith vars qs (f a)) :
    FailsWith vars (r :: qs) (x >>= f) :=
  hx.bind hf

/-- A setting in one variable. -/
theorem value
    {read : List Char → Option α}
    {denotes : α → List Char → Prop}
    {kind : List Char → Prop}
    (hread : ∀ cs v, read cs = some v ↔ denotes v cs)
    (hkind : ∀ cs, kind cs ↔ ∃ v, denotes v cs)
    (name : String)
    (default : α) :
    FailsWith vars [.numeral name kind] (Settings.value vars name default read) := by
  have hspells : ∀ raw, Settings.Spells kind raw ↔ ∃ v, Settings.Spells (denotes v) raw := by
    intro raw
    simp only [Settings.Spells, hkind]
    exact ⟨fun ⟨body, hbody, v, hv⟩ => ⟨v, body, hbody, hv⟩,
      fun ⟨v, body, hbody, hv⟩ => ⟨body, hbody, v, hv⟩⟩
  intro e
  rw [Settings.value_eq_error_iff hread, firstUnmet_cons, or_iff_left fun h => firstUnmet_nil h.2]
  simp only [Requirement.Met, Requirement.failure, hspells]
  constructor
  · rintro ⟨raw, hraw, hnone, rfl⟩
    refine ⟨fun h => ?_, by rw [hraw]; rfl⟩
    obtain ⟨v, hv⟩ := h raw hraw
    exact hnone v hv
  · rintro ⟨hunmet, rfl⟩
    cases hraw : vars name with
    | none => exact absurd (fun raw h => absurd (hraw.symm.trans h) (by simp)) hunmet
    | some raw =>
        refine ⟨raw, rfl, fun v hv => hunmet fun other hother => ?_, rfl⟩
        obtain rfl := Option.some.inj (hraw.symm.trans hother)
        exact ⟨v, hv⟩

end FailsWith

theorem bind_eq_ok_iff
    {ε α β : Type}
    {x : Except ε α}
    {f : α → Except ε β}
    {b : β} :
    x >>= f = .ok b ↔ ∃ a, x = .ok a ∧ f a = .ok b := by
  cases x with
  | error e => exact ⟨fun h => absurd h (by simp [bind, Except.bind]), fun ⟨_, h, _⟩ => nomatch h⟩
  | ok a => exact ⟨fun h => ⟨a, rfl, h⟩, fun ⟨_, h, hf⟩ => Except.ok.inj h ▸ hf⟩

namespace StoreConfig

variable {vars : Variables}

/-- The conditions on the settings of a store. -/
def requirements : List Requirement :=
  [.numeral "REDIS_POOL_SIZE" fun cs => ∃ n, Natural n cs ∧ n < 2 ^ 64,
   .numeral "REDIS_DB" fun cs => ∃ i, Integer i cs ∧ -2 ^ 63 ≤ i ∧ i < 2 ^ 63,
   .numeral "REDIS_CONN_ATTEMPTS" fun cs => ∃ n, Natural n cs ∧ n < 2 ^ 32,
   .numeral "REDIS_CONN_TIMEOUT_MS" fun cs => ∃ n, Natural n cs ∧ n < 2 ^ 64]

/-- Variables describe the settings of a store: each number is the one that its variable
denotes, or its default. -/
structure Describes (vars : Variables) (c : StoreConfig) : Prop where
  url : c.url = (vars "REDIS_URL").getD "redis://localhost:6379"
  poolSize : Settings.Setting (vars "REDIS_POOL_SIZE") 10
    (fun n cs => Natural n cs ∧ n < 2 ^ 64) c.poolSize
  db : Settings.Setting (vars "REDIS_DB") 0 (fun i cs => Integer i.toInt cs) c.db
  connAttempts : Settings.Setting (vars "REDIS_CONN_ATTEMPTS") 10
    (fun n cs => Natural n.toNat cs) c.connAttempts
  connTimeout : Settings.Setting (vars "REDIS_CONN_TIMEOUT_MS") (.ofMillis 1000)
    Settings.Millis c.connTimeout

theorem read_eq_ok_iff
    {c : StoreConfig} :
    read vars = .ok c ↔ Describes vars c := by
  rw [read]
  simp only [bind_eq_ok_iff, Settings.value_eq_ok_iff Settings.natural64_eq_some_iff,
    Settings.value_eq_ok_iff Settings.natural32_eq_some_iff,
    Settings.value_eq_ok_iff Settings.int64_eq_some_iff,
    Settings.value_eq_ok_iff Settings.millis_eq_some_iff]
  constructor
  · rintro ⟨n, hn, db, hdb, m, hm, d, hd, h⟩
    obtain rfl := Except.ok.inj h
    exact ⟨rfl, hn, hdb, hm, hd⟩
  · rintro ⟨hurl, hn, hdb, hm, hd⟩
    refine ⟨_, hn, _, hdb, _, hm, _, hd, ?_⟩
    rw [← hurl]

/-- A store is read variable by variable. -/
theorem failsWith_read :
    FailsWith vars requirements (read vars) := by
  have hint : ∀ cs, (∃ i, Integer i cs ∧ -2 ^ 63 ≤ i ∧ i < 2 ^ 63) ↔
      ∃ i : Int64, Integer i.toInt cs := by
    intro cs
    constructor
    · rintro ⟨i, h, hleast, hmost⟩
      refine ⟨.ofInt i, ?_⟩
      rw [Int64.toInt_ofInt_of_le hleast hmost]
      exact h
    · rintro ⟨i, h⟩
      exact ⟨i.toInt, h, i.le_toInt, i.toInt_lt⟩
  have hnat32 : ∀ cs, (∃ n, Natural n cs ∧ n < 2 ^ 32) ↔ ∃ n : UInt32, Natural n.toNat cs := by
    intro cs
    constructor
    · rintro ⟨n, h, hn⟩
      refine ⟨.ofNat n, ?_⟩
      rw [UInt32.toNat_ofNat', Nat.mod_eq_of_lt hn]
      exact h
    · rintro ⟨n, h⟩
      exact ⟨n.toNat, h, n.toNat_lt⟩
  refine .first (.value Settings.natural64_eq_some_iff (fun cs => Iff.rfl) _ _) fun poolSize => ?_
  refine .first (.value Settings.int64_eq_some_iff hint _ _) fun db => ?_
  refine .first (.value Settings.natural32_eq_some_iff hnat32 _ _) fun connAttempts => ?_
  exact .first (.value Settings.millis_eq_some_iff Settings.exists_millis_iff _ _)
    fun connTimeout => .ok _

end StoreConfig

namespace PromoterSettings

variable {vars : Variables}

/-- The conditions on the settings of the promoter, in the order in which they are checked. -/
def requirements : List Requirement :=
  StoreConfig.requirements ++
    [.names "SKEIN_QUEUES",
     .numeral "SKEIN_PROMOTE_INTERVAL_MS" fun cs => ∃ n, Natural n cs ∧ 0 < n ∧ n < 2 ^ 64]

/-- Variables describe the settings of the promoter. -/
structure Describes (vars : Variables) (s : PromoterSettings) : Prop where
  store : s.store.Describes vars
  queues : s.queues ≠ [] ∧ Lists ((vars "SKEIN_QUEUES").getD "") s.queues
  interval : Settings.Setting (vars "SKEIN_PROMOTE_INTERVAL_MS") (.ofMillis 1000)
    (fun d cs => Settings.Millis d cs ∧ 0 < d.nanos) s.interval

theorem interval?_eq_some_iff
    (cs : List Char)
    (d : Duration) :
    interval? cs = some d ↔ Settings.Millis d cs ∧ 0 < d.nanos := by
  rw [interval?, Option.filter_eq_some_iff, Settings.millis_eq_some_iff]
  simp [Duration.isZero, Nat.pos_iff_ne_zero]

theorem queuesIn_eq_ok_iff
    {queues : List String} :
    queuesIn vars = .ok queues ↔
      queues ≠ [] ∧ Lists ((vars "SKEIN_QUEUES").getD "") queues := by
  rw [queuesIn, ← names_eq_iff, ← queuesVariable]
  split
  · next h =>
      rw [h]
      exact ⟨fun h => absurd h (by simp), fun h => absurd h.2.symm h.1⟩
  · next h =>
      rw [Except.ok.injEq]
      exact ⟨fun heq => ⟨heq ▸ h, heq⟩, fun heq => heq.2⟩

theorem failsWith_queuesIn :
    FailsWith vars [.names "SKEIN_QUEUES"] (queuesIn vars) := by
  intro e
  rw [firstUnmet_cons, or_iff_left fun h => firstUnmet_nil h.2]
  simp only [Requirement.Met, Requirement.failure, ← queuesIn_eq_ok_iff]
  have herror : ∀ d, queuesIn vars = .error d → d = .missing "SKEIN_QUEUES" := by
    intro d hd
    rw [queuesIn] at hd
    split at hd
    · exact (Except.error.inj hd).symm
    · exact absurd hd (by simp)
  cases h : queuesIn vars with
  | ok queues => simp
  | error d =>
      obtain rfl := herror d h
      simp [eq_comm]

theorem read_eq_ok_iff
    {s : PromoterSettings} :
    read vars = .ok s ↔ Describes vars s := by
  rw [read_eq]
  simp only [bind_eq_ok_iff, StoreConfig.read_eq_ok_iff, queuesIn_eq_ok_iff,
    Settings.value_eq_ok_iff interval?_eq_some_iff]
  constructor
  · rintro ⟨store, hstore, queues, hqueues, interval, hinterval, h⟩
    obtain rfl := Except.ok.inj h
    exact ⟨hstore, hqueues, hinterval⟩
  · rintro ⟨hstore, hqueues, hinterval⟩
    exact ⟨_, hstore, _, hqueues, _, hinterval, rfl⟩

theorem failsWith_read :
    FailsWith vars requirements (read vars) := by
  rw [read_eq, requirements]
  refine StoreConfig.failsWith_read.bind fun store => ?_
  refine .first failsWith_queuesIn fun queues => ?_
  exact .first (.value interval?_eq_some_iff Settings.exists_positive_millis_iff _ _)
    fun interval => .ok _

/-- **Settings are read exactly if every condition holds, and the first that does not is the
failure.**  The settings are those that the variables describe.  Each number is the one that
its variable denotes with white space around it, or its default; a variable is refused if it
is set and denotes no number of its range, and the failure shows it as it was set.  What
stands in the variables behind the one that is refused does not matter. -/
theorem settings_of_variables
    (vars : Variables) :
    (∀ s, read vars = .ok s ↔ Describes vars s) ∧
    ((∃ s, read vars = .ok s) ↔ ∀ r ∈ requirements, r.Met vars) ∧
    (∀ e, read vars = .error e ↔ FirstUnmet vars requirements e) ∧
    ∀ before r after, requirements = before ++ r :: after →
      (∀ q ∈ before, q.Met vars) → ¬ r.Met vars →
        ∀ other : Variables,
          (∀ q ∈ before ++ [r], other q.variableName = vars q.variableName) →
            read other = .error (r.failure vars) := by
  refine ⟨fun s => read_eq_ok_iff, failsWith_read.isOk_iff, failsWith_read, ?_⟩
  intro before r after hsplit hbefore hr other hother
  rw [failsWith_read, hsplit]
  exact FirstUnmet.congr hbefore hr hother

end PromoterSettings

end Courier
