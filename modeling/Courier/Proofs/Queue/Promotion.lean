import Courier.Proofs.Queue.Interleaving
import Mathlib.Data.List.Induction

/-!
# Promotion loses nothing

Two promoters may read the same entry before either moves it, and then both move
it; meanwhile it may be taken and scheduled again.  An entry is nevertheless
never lost, because it leaves the delayed set only in the batch that puts it on
the live queue.  It may be put there more than once, but at most once for each
read that returned it, and exactly once for each time it left the delayed set
where promotions of the queue do not overlap.

**Results.**
* `Clients.Sound.delayed_step`: an entry stays delayed or is moved.
* `Clients.Sound.copies_step`: a move spends the read that returned the entry.
* `Clients.Sound.copies_eq_departures`: a move of what is still delayed puts
  there what it removes.
* `promotion_at_least_once`: what holds of every run.
-/

namespace Courier
namespace Queue

namespace Clients

/-- The sum of a count over the actions of a run. -/
def tally (count : Clients → Action → Nat) (s : Clients) : List Action → Nat
  | [] => 0
  | a :: actions => count s a + tally count (s.step a) actions

theorem tally_append
    (count : Clients → Action → Nat)
    (s : Clients)
    (before after : List Action) :
    tally count s (before ++ after) =
      tally count s before + tally count (s.run before) after := by
  induction before generalizing s with
  | nil => simp [tally]
  | cons a before ih =>
      simp only [List.cons_append, tally, ih, run_cons]
      omega

/-- The copies of an entry that a promoter puts on a live queue. -/
def copies (queue : String) (b : Bytes) (s : Clients) : Action → Nat
  | .move promoter =>
      ((s.step (.move promoter)).live queue).count b - (s.live queue).count b
  | _ => 0

/-- Whether a promoter reads an entry of a queue, as a number. -/
def reads (queue : String) (b : Bytes) (s : Clients) : Action → Nat
  | .read _ q now => if q = queue ∧ b ∈ s.readyEntries q now then 1 else 0
  | _ => 0

/-- Whether an entry leaves the delayed set of a queue, as a number. -/
def departures (queue : String) (b : Bytes) (s : Clients) (a : Action) : Nat :=
  if b ∈ s.delayed queue ∧ b ∉ (s.step a).delayed queue then 1 else 0

/-- Whether an action puts an entry at the front of a live queue. -/
def Puts (queue : String) (b : Bytes) (s : Clients) (a : Action) : Prop :=
  ∃ added, (s.step a).live queue = added ++ s.live queue ∧ b ∈ added

/-- The number of promoters that hold an entry of a queue. -/
def holders (s : Clients) (queue : String) (b : Bytes) : Nat :=
  s.pending.countP fun r => r.queue = queue ∧ b ∈ r.entries

namespace Sound

variable {s : Clients} (hs : s.Sound)
include hs

theorem live_move
    {promoter : Nat}
    {r : Pending}
    (hr : s.held promoter = some r)
    (queue : String) :
    (s.step (.move promoter)).live queue =
      if r.queue = queue then r.entries.reverse ++ s.live queue else s.live queue := by
  rw [hs.step_move hr]
  exact list_applyAll_moves _ _ _ _

theorem mem_delayed_move
    {promoter : Nat}
    {r : Pending}
    (hr : s.held promoter = some r)
    {queue : String}
    {b : Bytes} :
    b ∈ (s.step (.move promoter)).delayed queue ↔
      b ∈ s.delayed queue ∧ ¬ (r.queue = queue ∧ b ∈ r.entries) := by
  rw [hs.step_move hr]
  simp only [delayed, sortedSet_applyAll_moves, delayedKey_inj]
  split
  · next h =>
      simp only [SortedSet.members, List.mem_map, List.mem_filter, h, true_and]
      constructor
      · rintro ⟨e, ⟨he, hne⟩, rfl⟩
        exact ⟨⟨e, he, rfl⟩, by simpa using hne⟩
      · rintro ⟨⟨e, he, rfl⟩, hne⟩
        exact ⟨e, ⟨he, by simpa using hne⟩, rfl⟩
  · next h => simp [h]

/-- A delayed entry stays delayed, or a promoter that holds it moves it. -/
theorem delayed_step
    {queue : String}
    {b : Bytes}
    (hb : b ∈ s.delayed queue)
    (a : Action) :
    b ∈ (s.step a).delayed queue ∨
      ∃ promoter r, a = .move promoter ∧ s.held promoter = some r ∧
        r.queue = queue ∧ b ∈ r.entries := by
  have he := (hs.effect a).1
  simp only [delayed] at hb ⊢
  generalize hd : (s.step a).store.data = d at he ⊢
  cases he with
  | keep => exact Or.inl hb
  | take q =>
      left
      simpa using hb
  | push =>
      left
      simpa using hb
  | schedule =>
      left
      rw [Data.sortedSet_sortedAdd]
      split
      · exact SortedSet.mem_members_add.2 (Or.inr hb)
      · exact hb
  | @move promoter r hr =>
      by_cases h : r.queue = queue ∧ b ∈ r.entries
      · exact Or.inr ⟨promoter, r, rfl, hr, h⟩
      · left
        rw [← hd]
        exact (hs.mem_delayed_move hr).2 ⟨hb, h⟩

theorem puts_of_held
    {promoter : Nat}
    {r : Pending}
    (hr : s.held promoter = some r)
    {b : Bytes}
    (hb : b ∈ r.entries) :
    Puts r.queue b s (.move promoter) := by
  refine ⟨r.entries.reverse, ?_, List.mem_reverse.2 hb⟩
  rw [hs.live_move hr, if_pos rfl]

/-- A move puts on its own queue each entry that it holds, once. -/
theorem copies_move
    {promoter : Nat}
    {r : Pending}
    (hr : s.held promoter = some r)
    (queue : String)
    (b : Bytes) :
    copies queue b s (.move promoter) =
      if r.queue = queue ∧ b ∈ r.entries then 1 else 0 := by
  have hn := hs.nodup_entries r (held_mem hr).1
  simp only [copies, hs.live_move hr]
  by_cases hq : r.queue = queue
  · rw [if_pos hq, List.count_append, List.count_reverse, Nat.add_sub_cancel]
    by_cases hb : b ∈ r.entries
    · rw [if_pos ⟨hq, hb⟩, List.count_eq_one_of_mem hn hb]
    · rw [if_neg (fun h => hb h.2), List.count_eq_zero_of_not_mem hb]
  · rw [if_neg hq, if_neg (fun h => hq h.1), Nat.sub_self]

omit hs in
theorem holders_others_le
    (promoter : Nat)
    (queue : String)
    (b : Bytes) :
    (s.others promoter).countP (fun r => r.queue = queue ∧ b ∈ r.entries) ≤
      s.holders queue b :=
  List.filter_sublist.countP_le

theorem copies_add_holders_move
    {promoter : Nat}
    {r : Pending}
    (hr : s.held promoter = some r)
    (queue : String)
    (b : Bytes) :
    copies queue b s (.move promoter) + (s.step (.move promoter)).holders queue b ≤
      s.holders queue b := by
  rw [hs.copies_move hr, hs.step_move hr]
  simp only [holders, others]
  split
  · next h =>
      have hsplit := List.countP_eq_countP_filter_add s.pending
        (fun r => decide (r.queue = queue ∧ b ∈ r.entries))
        (fun r => decide (r.promoter ≠ promoter))
      have hpos : 0 < (s.pending.filter fun a => !decide (a.promoter ≠ promoter)).countP
          fun r => decide (r.queue = queue ∧ b ∈ r.entries) := by
        refine List.countP_pos_iff.2 ⟨r, List.mem_filter.2 ⟨(held_mem hr).1, ?_⟩, ?_⟩
        · simp [(held_mem hr).2]
        · simpa using h
      omega
  · rw [Nat.zero_add]
    exact holders_others_le promoter queue b

/-- The copies that promoters have put on a queue, with those they may still put
there, grow only by a read. -/
theorem copies_step
    (a : Action)
    (queue : String)
    (b : Bytes) :
    copies queue b s a + (s.step a).holders queue b ≤
      s.holders queue b + reads queue b s a := by
  cases a with
  | push q job fresh now => simp [copies, reads, holders, Clients.step]
  | schedule q job readyAt fresh now => simp [copies, reads, holders, Clients.step]
  | pop q wait => simp [copies, reads, holders, Clients.step]
  | popNonBlocking q => simp [copies, reads, holders, Clients.step]
  | read promoter q now =>
      have hle := holders_others_le (s := s) promoter queue b
      simp only [copies, reads, holders, Clients.step, Nat.zero_add] at hle ⊢
      split
      · omega
      · rw [List.countP_cons]
        simp only [decide_eq_true_eq]
        omega
  | move promoter =>
      cases hr : s.held promoter with
      | none =>
          simp only [copies, reads, step_move_of_held_none hr]
          omega
      | some r => exact hs.copies_add_holders_move hr queue b

/-- Where a promoter moves only what is still delayed, it puts on the queue what
it removes from the delayed set. -/
theorem copies_eq_departures
    (a : Action)
    (queue : String)
    (b : Bytes)
    (hfresh : ∀ promoter r, a = .move promoter → s.held promoter = some r →
      r.queue = queue → b ∈ r.entries → b ∈ s.delayed queue) :
    copies queue b s a = departures queue b s a := by
  by_cases hmove : ∃ promoter r, a = .move promoter ∧ s.held promoter = some r
  · obtain ⟨promoter, r, rfl, hr⟩ := hmove
    simp only [hs.copies_move hr, departures, hs.mem_delayed_move hr]
    by_cases h : r.queue = queue ∧ b ∈ r.entries
    · simp [h, hfresh promoter r rfl hr h.1 h.2]
    · simp [h]
  · have hcopies : copies queue b s a = 0 := by
      cases a with
      | move promoter =>
          cases hr : s.held promoter with
          | none => simp [copies, step_move_of_held_none hr]
          | some r => exact absurd ⟨promoter, r, rfl, hr⟩ hmove
      | _ => rfl
    have hstay : ¬ (b ∈ s.delayed queue ∧ b ∉ (s.step a).delayed queue) := by
      rintro ⟨hb, hnot⟩
      rcases hs.delayed_step hb a with h | ⟨promoter, r, rfl, hr, _⟩
      · exact hnot h
      · exact hmove ⟨promoter, r, rfl, hr⟩
    rw [hcopies, departures, if_neg hstay]

/-- A delayed entry stays delayed along a run, or a promoter puts it on the live queue. -/
theorem delayed_run
    {queue : String}
    {b : Bytes}
    (hb : b ∈ s.delayed queue)
    (actions : List Action) :
    b ∈ (s.run actions).delayed queue ∨
      ∃ mid promoter later, actions = mid ++ .move promoter :: later ∧
        Puts queue b (s.run mid) (.move promoter) := by
  induction actions generalizing s with
  | nil => exact Or.inl hb
  | cons a actions ih =>
      rcases hs.delayed_step hb a with hstay | ⟨promoter, r, rfl, hr, rfl, hmem⟩
      · rcases ih (hs.step a) hstay with h | ⟨mid, promoter, later, rfl, hput⟩
        · exact Or.inl h
        · exact Or.inr ⟨a :: mid, promoter, later, rfl, hput⟩
      · exact Or.inr ⟨[], promoter, actions, rfl, hs.puts_of_held hr hmem⟩

theorem mem_delayed_of_schedules
    {a : Action}
    {queue : String}
    {b : Bytes}
    (ha : a.Schedules queue b) :
    b ∈ (s.step a).delayed queue := by
  cases a with
  | schedule q job readyAt fresh now =>
      obtain ⟨rfl, rfl⟩ := ha
      rw [hs.step_schedule]
      simp only [delayed, Data.sortedSet_sortedAdd, if_true]
      exact SortedSet.mem_members_add.2 (Or.inl rfl)
  | _ => exact absurd ha id

theorem copies_run
    (actions : List Action)
    (queue : String)
    (b : Bytes) :
    tally (copies queue b) s actions + (s.run actions).holders queue b ≤
      s.holders queue b + tally (reads queue b) s actions := by
  induction actions generalizing s with
  | nil => simp [tally]
  | cons a actions ih =>
      have h₁ := hs.copies_step a queue b
      have h₂ := ih (hs.step a)
      simp only [tally, run_cons]
      omega

end Sound
end Clients

/-- A promotion of a queue in a run: where its promoter reads and where it next
acts, which is to move. -/
def IsPromotion (queue : String) (actions : List Action) (i j : Nat) : Prop :=
  ∃ promoter now,
    actions[i]? = some (.read promoter queue now) ∧
    actions[j]? = some (.move promoter) ∧
    i < j ∧
    ∀ k a, i < k → k < j → actions[k]? = some a → ¬ a.By promoter

/-- Whether a promotion of a queue begins while another one is under way. -/
def Overlap (queue : String) (actions : List Action) : Prop :=
  ∃ i j i' j', IsPromotion queue actions i j ∧ IsPromotion queue actions i' j' ∧
    i < i' ∧ i' < j

theorem IsPromotion.lt_length
    {queue : String}
    {actions : List Action}
    {i j : Nat}
    (h : IsPromotion queue actions i j) :
    j < actions.length := by
  obtain ⟨promoter, now, _, hj, _⟩ := h
  exact (List.getElem?_eq_some_iff.1 hj).1

theorem IsPromotion.append
    {queue : String}
    {actions : List Action}
    {i j : Nat}
    (h : IsPromotion queue actions i j)
    (later : List Action) :
    IsPromotion queue (actions ++ later) i j := by
  have hlt := h.lt_length
  obtain ⟨promoter, now, hi, hj, hij, hbetween⟩ := h
  refine ⟨promoter, now, ?_, ?_, hij, ?_⟩
  · rw [List.getElem?_append_left (by omega), hi]
  · rw [List.getElem?_append_left hlt, hj]
  · intro k a hik hkj hk
    rw [List.getElem?_append_left (by omega)] at hk
    exact hbetween k a hik hkj hk

theorem Overlap.append
    {queue : String}
    {actions : List Action}
    (h : Overlap queue actions)
    (later : List Action) :
    Overlap queue (actions ++ later) := by
  obtain ⟨i, j, i', j', hij, hij', hlt⟩ := h
  exact ⟨i, j, i', j', hij.append later, hij'.append later, hlt⟩

/-- Two promotions of which neither ends before the other begins overlap. -/
theorem overlap_of_ends_between
    {queue : String}
    {actions : List Action}
    {i j i' j' : Nat}
    (h : IsPromotion queue actions i j)
    (h' : IsPromotion queue actions i' j')
    (hi : i < j')
    (hj : j' < j) :
    Overlap queue actions := by
  obtain ⟨promoter', now', hread', hmove', hij', hbetween'⟩ := id h'
  rcases Nat.lt_trichotomy i i' with hlt | heq | hgt
  · exact ⟨i, j, i', j', h, h', hlt, by omega⟩
  · -- One read cannot be that of two promotions: its promoter moves but once.
    obtain ⟨promoter, now, hread, _, _, hbetween⟩ := id h
    subst heq
    rw [hread] at hread'
    cases hread'
    exact absurd rfl (hbetween j' _ hi hj hmove')
  · exact ⟨i', j', i, j, h', h, hgt, hi⟩

/-- What a promoter holds after a run: the place of its read, behind which it has
not acted, and either all of it is still delayed or a promotion has ended since. -/
def Traced (clock : Nat) (actions : List Action) (r : Pending) : Prop :=
  ∃ i now,
    actions[i]? = some (.read r.promoter r.queue now) ∧
    (∀ k a, i < k → actions[k]? = some a → ¬ a.By r.promoter) ∧
    ((∀ b, b ∈ r.entries → b ∈ ((Clients.start clock).run actions).delayed r.queue) ∨
      ∃ i' j', i < j' ∧ IsPromotion r.queue actions i' j')

/-- A promoter that moves what it holds completes a promotion. -/
theorem Traced.isPromotion
    {actions : List Action}
    {r : Pending}
    {i : Nat}
    {now : Calendar.Timestamp}
    (hi : actions[i]? = some (.read r.promoter r.queue now))
    (hidle : ∀ k a, i < k → actions[k]? = some a → ¬ a.By r.promoter) :
    IsPromotion r.queue (actions ++ [.move r.promoter]) i actions.length := by
  have hlt : i < actions.length := (List.getElem?_eq_some_iff.1 hi).1
  refine ⟨r.promoter, now, ?_, ?_, hlt, ?_⟩
  · rw [List.getElem?_append_left hlt, hi]
  · rw [List.getElem?_concat_length]
  · intro k a hik hk hka
    rw [List.getElem?_append_left hk] at hka
    exact hidle k a hik hka

theorem traced_of_run
    (clock : Nat)
    (actions : List Action)
    (r : Pending)
    (hr : r ∈ ((Clients.start clock).run actions).pending) :
    Traced clock actions r := by
  induction actions using List.reverseRecOn generalizing r with
  | nil => simp [Clients.start] at hr
  | append_singleton actions a ih =>
      have hs : ((Clients.start clock).run actions).Sound := (Clients.sound_start clock).run actions
      have hrun : (Clients.start clock).run (actions ++ [a]) =
          ((Clients.start clock).run actions).step a := by
        rw [Clients.run_append, Clients.run_cons, Clients.run_nil]
      rw [hrun] at hr
      rcases hs.mem_pending_step hr with ⟨hold, hidle⟩ | ⟨now, rfl, hentries⟩
      · obtain ⟨i, now, hi, hafter, hstate⟩ := ih r hold
        have hlt : i < actions.length := (List.getElem?_eq_some_iff.1 hi).1
        refine ⟨i, now, ?_, ?_, ?_⟩
        · rw [List.getElem?_append_left hlt, hi]
        · intro k c hik hk
          rcases Nat.lt_or_ge k actions.length with hkl | hkl
          · rw [List.getElem?_append_left hkl] at hk
            exact hafter k c hik hk
          · rw [List.getElem?_append_right hkl] at hk
            have hca : c = a := List.mem_singleton.1 (List.mem_of_getElem? hk)
            exact hca ▸ hidle
        · rcases hstate with hfresh | ⟨i', j', hij', hprom⟩
          · -- The entries stay delayed unless another promoter moves on this queue.
            by_cases hmove : ∃ promoter r', a = .move promoter ∧
                ((Clients.start clock).run actions).held promoter = some r' ∧ r'.queue = r.queue
            · obtain ⟨promoter, r', rfl, hr', hq⟩ := hmove
              obtain ⟨hmem, rfl⟩ := Clients.held_mem hr'
              obtain ⟨i', now', hi', hafter', _⟩ := ih r' hmem
              right
              refine ⟨i', actions.length, hlt, ?_⟩
              rw [← hq]
              exact Traced.isPromotion hi' hafter'
            · left
              intro b hb
              rw [hrun]
              rcases hs.delayed_step (hfresh b hb) a with h | ⟨p, r', ha, hr', hq, _⟩
              · exact h
              · exact absurd ⟨p, r', ha, hr', hq⟩ hmove
          · exact Or.inr ⟨i', j', hij', hprom.append [a]⟩
      · refine ⟨actions.length, now, List.getElem?_concat_length, ?_, Or.inl ?_⟩
        · intro k c hk hkc
          have hlen := (List.getElem?_eq_some_iff.1 hkc).1
          simp only [List.length_append, List.length_singleton] at hlen
          omega
        · intro b hb
          rw [hentries] at hb
          have hmem := hs.mem_delayed_of_mem_readyEntries hb
          rw [hrun, Clients.delayed, hs.step_read_store]
          exact hmem

/-- Where promotions of a queue do not overlap, what is put on it has left its
delayed set. -/
theorem copies_eq_departures_of_not_overlap
    (clock : Nat)
    (actions : List Action)
    (queue : String)
    (b : Bytes)
    (h : ¬ Overlap queue actions) :
    Clients.tally (Clients.copies queue b) (.start clock) actions =
      Clients.tally (Clients.departures queue b) (.start clock) actions := by
  induction actions using List.reverseRecOn with
  | nil => rfl
  | append_singleton actions a ih =>
      have hs : ((Clients.start clock).run actions).Sound := (Clients.sound_start clock).run actions
      have hbefore : ¬ Overlap queue actions := fun ho => h (ho.append [a])
      have hlast : Clients.copies queue b ((Clients.start clock).run actions) a =
          Clients.departures queue b ((Clients.start clock).run actions) a := by
        refine hs.copies_eq_departures a queue b ?_
        rintro promoter r rfl hr rfl hmem
        obtain ⟨hpending, rfl⟩ := Clients.held_mem hr
        obtain ⟨i, now, hi, hidle, hfresh | ⟨i', j', hij', hprom⟩⟩ :=
          traced_of_run clock actions r hpending
        · exact hfresh b hmem
        · refine absurd (overlap_of_ends_between (Traced.isPromotion hi hidle)
            (hprom.append _) hij' hprom.lt_length) h
      simp only [Clients.tally_append, Clients.tally, Nat.add_zero, ih hbefore, hlast]

/-- **Promotion is at-least-once.**  In every run of any number of clients,
whatever was scheduled on a queue is still delayed or has been put on the live
queue by a promoter since; a promoter puts no more copies there than reads of the
queue returned the entry; and where promotions of the queue do not overlap there
are as many copies as times the entry left the delayed set. -/
theorem promotion_at_least_once
    (clock : Nat)
    (actions : List Action)
    (queue : String)
    (b : Bytes) :
    (∀ before a after, actions = before ++ a :: after → a.Schedules queue b →
      b ∈ ((Clients.start clock).run actions).delayed queue ∨
        ∃ mid promoter later, after = mid ++ .move promoter :: later ∧
          Clients.Puts queue b ((Clients.start clock).run (before ++ a :: mid)) (.move promoter)) ∧
    Clients.tally (Clients.copies queue b) (.start clock) actions ≤
      Clients.tally (Clients.reads queue b) (.start clock) actions ∧
    (¬ Overlap queue actions →
      Clients.tally (Clients.copies queue b) (.start clock) actions =
        Clients.tally (Clients.departures queue b) (.start clock) actions) := by
  refine ⟨?_, ?_, copies_eq_departures_of_not_overlap clock actions queue b⟩
  · rintro before a after rfl ha
    have hs : ((Clients.start clock).run before).Sound := (Clients.sound_start clock).run before
    have hin := hs.mem_delayed_of_schedules ha
    simp only [Clients.run_append, Clients.run_cons]
    exact (hs.step a).delayed_run hin after
  · have h := (Clients.sound_start clock).copies_run actions queue b
    have hnone : (Clients.start clock).holders queue b = 0 := rfl
    omega

end Queue
end Courier
