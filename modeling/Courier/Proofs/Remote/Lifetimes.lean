import Courier.Proofs.Remote.Commands

/-!
# Values that expire on the server

A plain value that is set with a time to live is sent with the number of milliseconds after
which the server is to drop it.  The number is one of 64 bits: a time to live of no more whole
milliseconds than these can count is asked for as it is, any time below one millisecond as one,
and of a longer one only the remainder is asked for.

**Results.**
* `Client.Asks`, `Client.asks_withConn`: what a call of one command brings to the server.
* `Command.ttlMillis_of_not_isZero`: the milliseconds of a time to live.
* `asked_within_64_bits`: what is asked for, and when that is the time to live.
* `long_life_asked_short`: a long time to live of which little is asked for.
-/

namespace Courier

namespace Duration

/-- The least number that 64 bits do not count. -/
def askable : Nat := 0x10000000000000000

/-- A time below one millisecond counts as one. -/
theorem wholeMillis_max_oneMilli
    (d : Duration) :
    (d.max .oneMilli).wholeMillis = Max.max 1 d.wholeMillis := by
  have hone : oneMilli.nanos = 1000000 := rfl
  rw [Duration.max, wholeMillis, wholeMillis]
  split
  · next h =>
      rw [hone] at h ⊢
      omega
  · next h =>
      rw [hone] at h
      omega

end Duration

namespace Remote

namespace Talk

variable {α : Type}

/-- A command reaches the server unless its connection was closed before. -/
theorem sent_query
    (words : Words)
    (read : Reply → Except Fault α)
    (c : ConnId)
    (s : Server) :
    (query words read c).run s = (.error .brokenPipe, s) ∨
      ((query words read c).run s).2.sent = s.sent ++ [(c, words)] := by
  rw [query_run]
  rcases s.sent_ask c words with hask | hsent
  · rw [hask]
    exact Or.inl rfl
  · exact Or.inr hsent

end Talk

namespace Client

variable {α : Type}

/-- A call brings a command to the server, at most once and for certain if it succeeds, behind
what sets up its connection. -/
def Asks (k : Client) (r : Except StoreError α × Client) (words : Words) : Prop :=
  ∃ setup asked, r.2.server.sent = k.server.sent ++ setup ++ asked ∧
    (∀ e ∈ setup, Talk.SetsUp e.2) ∧ (asked = [] ∨ ∃ c, asked = [(c, words)]) ∧
    (r.1.isOk = true → asked ≠ [])

/-- A command that is asked on a connection. -/
theorem asks_talk
    {k l : Client}
    {c : ConnId}
    {setup : List (ConnId × Words)}
    (hsetup : l.server.sent = k.server.sent ++ setup)
    (hsets : ∀ e ∈ setup, Talk.SetsUp e.2)
    (words : Words)
    (read : Reply → Except Fault α) :
    let r := l.talk (Talk.query words read c)
    k.Asks (r.1.mapError Fault.toStore, r.2.giveBack c r.1) words := by
  intro r
  rcases Talk.sent_query words read c l.server with hrun | hsent
  · have hr : r = (.error .brokenPipe, l) := by
      simp only [r, Callers.talk_eq, hrun]
    rw [hr]
    refine ⟨setup, [], ?_, hsets, Or.inl rfl, fun hok => absurd hok Bool.false_ne_true⟩
    rw [List.append_nil]
    exact hsetup
  · refine ⟨setup, [(c, words)], ?_, hsets, Or.inr ⟨c, rfl⟩, fun _ => List.cons_ne_nil _ _⟩
    rw [← hsetup]
    exact hsent

/-- **A call of one command asks for it.** -/
theorem asks_withConn
    (k : Client)
    (words : Words)
    (read : Reply → Except Fault α) :
    k.Asks (k.withConn (Talk.query words read)) words := by
  obtain ⟨setup, hsent, hsets⟩ := k.sent_checkout
  rcases hcheckout : k.checkout with ⟨e | c, l⟩
  · rw [hcheckout] at hsent
    rw [withConn, hcheckout]
    exact ⟨setup, [], by rw [hsent, List.append_nil], hsets, Or.inl rfl,
      fun hok => absurd hok Bool.false_ne_true⟩
  · rw [hcheckout] at hsent
    rw [withConn_of_checkout hcheckout]
    exact asks_talk hsent hsets words read

end Client

namespace Command

open Duration (askable)

/-- The words that ask for an expiry are two with the number, or none. -/
theorem expiry_eq
    (ttl : Option Duration) :
    expiry ttl = (ttlMillis ttl).elim [] fun n => [word "PX", numeral n] := by
  rw [expiry]
  cases ttlMillis ttl with
  | none => rfl
  | some n => rfl

theorem ttlMillis_of_isZero
    {d : Duration}
    (h : d.isZero = true) :
    ttlMillis (some d) = none := by
  simp [ttlMillis, Option.filter_some, h]

theorem ttlMillis_of_not_isZero
    {d : Duration}
    (h : d.isZero = false) :
    ttlMillis (some d) = some (max 1 d.wholeMillis % askable) := by
  simp only [ttlMillis, Option.filter_some, h, Bool.not_false, if_true, Option.map_some,
    Duration.wholeMillis_max_oneMilli]
  rfl

theorem ttlMillis_eq_none_iff
    {ttl : Option Duration} :
    ttlMillis ttl = none ↔ ∀ d, ttl = some d → d.isZero = true := by
  cases ttl with
  | none => simp [ttlMillis]
  | some d =>
      cases h : d.isZero with
      | true => simp [ttlMillis_of_isZero h, h]
      | false => simp [ttlMillis_of_not_isZero h, h]

/-- What is asked for is a remainder. -/
theorem eq_of_ttlMillis
    {d : Duration}
    {n : Nat}
    (h : ttlMillis (some d) = some n) :
    n = max 1 d.wholeMillis % askable := by
  cases hzero : d.isZero with
  | true => exact absurd h (by simp [ttlMillis_of_isZero hzero])
  | false =>
      rw [ttlMillis_of_not_isZero hzero] at h
      exact (Option.some.inj h).symm

theorem max_lt_askable
    {n : Nat} :
    max 1 n < askable ↔ n < askable := by
  rw [max_lt_iff, and_iff_right (by decide)]

/-- A time to live is asked for as it is exactly if its milliseconds have 64 bits. -/
theorem ttlMillis_exact_iff
    {d : Duration}
    (h : d.isZero = false) :
    ttlMillis (some d) = some (max 1 d.wholeMillis) ↔ d.wholeMillis < askable := by
  rw [ttlMillis_of_not_isZero h, Option.some.injEq, Nat.mod_eq_iff_lt (by decide), max_lt_askable]

/-- Below that, what is asked for is the time to live in whole milliseconds, and one at the
least. -/
theorem ttlMillis_of_lt
    {d : Duration}
    {n : Nat}
    (h : ttlMillis (some d) = some n)
    (hlt : d.wholeMillis < askable) :
    n = max 1 d.wholeMillis := by
  rw [eq_of_ttlMillis h, Nat.mod_eq_of_lt (max_lt_askable.2 hlt)]

/-- Of a longer time to live, what is asked for falls short by as much as can be asked for. -/
theorem ttlMillis_of_ge
    {d : Duration}
    {n : Nat}
    (h : ttlMillis (some d) = some n)
    (hge : askable ≤ d.wholeMillis) :
    n + askable ≤ d.wholeMillis := by
  have hone : 1 ≤ d.wholeMillis := Nat.le_trans (by decide) hge
  have hn := eq_of_ttlMillis h
  rw [max_eq_right hone] at hn
  have hquot : 1 ≤ d.wholeMillis / askable := (Nat.one_le_div_iff (by decide)).2 hge
  calc n + askable ≤ d.wholeMillis % askable + askable * (d.wholeMillis / askable) := by
        rw [hn]
        exact Nat.add_le_add_left (Nat.le_mul_of_pos_right _ hquot) _
    _ = d.wholeMillis := Nat.mod_add_div _ _

end Command

open Command Duration in
/-- **A value expires after the whole milliseconds of its time to live, and after one at the
least, as long as that number has 64 bits.**  Setting a plain value, whether or not the key
is absent, asks the server for it with one command, which ends in the number; without a time
to live, or with none of it, it ends before.  The number is the greater of one and the whole
milliseconds exactly if these have 64 bits.  It is positive then, less than a millisecond
short of the time to live, and no smaller than that for a shorter one.  Of any other time to
live only the remainder is asked for, which is short of it by at least two to the power of 64
milliseconds. -/
theorem asked_within_64_bits
    (k : Client)
    (key : String)
    (value : Bytes)
    (ttl : Option Duration) :
    let ending := (ttlMillis ttl).elim [] fun n => [word "PX", numeral n]
    k.Asks ((Store.set key value ttl : StoreM Client Unit).answer k)
        ([word "SET", word key, value] ++ ending) ∧
      k.Asks ((Store.setIfAbsent key value ttl : StoreM Client Bool).answer k)
        ([word "SET", word key, value, word "NX"] ++ ending) ∧
      (ttlMillis ttl = none ↔ ∀ d, ttl = some d → d.isZero = true) ∧
      ∀ d, ttl = some d → d.isZero = false →
        (ttlMillis ttl = some (max 1 d.wholeMillis) ↔ d.wholeMillis < askable) ∧
          ∀ n, ttlMillis ttl = some n →
            (d.wholeMillis < askable →
              1 ≤ n ∧ d.nanos < (n + 1) * 1000000 ∧
                ∀ e m, ttlMillis (some e) = some m → e.nanos ≤ d.nanos → m ≤ n) ∧
              (askable ≤ d.wholeMillis → n + askable ≤ d.wholeMillis) := by
  intro ending
  have hending : Command.expiry ttl = ending := Command.expiry_eq ttl
  rw [← hending]
  refine ⟨k.asks_withConn (Command.set key value ttl) _,
    k.asks_withConn (Command.setIfAbsent key value ttl) _, ttlMillis_eq_none_iff, ?_⟩
  rintro d rfl hd
  refine ⟨ttlMillis_exact_iff hd, fun n hn => ⟨fun hlt => ?_, ttlMillis_of_ge hn⟩⟩
  have hexact := ttlMillis_of_lt hn hlt
  refine ⟨?_, ?_, fun e m hm hle => ?_⟩
  · rw [hexact]
    exact Nat.le_max_left _ _
  · rw [hexact, Duration.wholeMillis]
    omega
  · have hmillis : e.wholeMillis ≤ d.wholeMillis := Nat.div_le_div_right hle
    rw [hexact, ttlMillis_of_lt hm (Nat.lt_of_le_of_lt hmillis hlt)]
    exact max_le_max (Nat.le_refl 1) hmillis

/-- About 585 million years. -/
def longLife : Duration :=
  .ofSecs 18446744073709552

open Command in
/-- A value with that time to live is set to expire after 384 milliseconds. -/
theorem long_life_asked_short :
    longLife.isZero = false ∧ max 1 longLife.wholeMillis = 18446744073709552000 ∧
      (∀ key value, Command.set key value (some longLife) =
        [word "SET", word key, value, word "PX", numeral 384]) ∧
      ¬ ∀ d : Duration, d.isZero = false → ttlMillis (some d) = some (max 1 d.wholeMillis) := by
  have hzero : longLife.isZero = false := by decide
  have hmillis : ttlMillis (some longLife) = some 384 := by decide
  refine ⟨hzero, by decide, fun key value => ?_, fun h => ?_⟩
  · rw [Command.set, Command.expiry, hmillis]
    rfl
  · have hexact := h longLife hzero
    rw [hmillis] at hexact
    exact absurd hexact (by decide)

end Remote
end Courier
