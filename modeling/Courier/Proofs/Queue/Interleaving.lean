import Courier.Proofs.Queue.Effect

/-!
# Many clients of one store

Any number of clients put jobs on queues, schedule them, take them and promote
queues, all on one in-memory store.  A promotion is two actions, between which
the others may do anything: a promoter reads the entries that are ready and
holds them, and later it moves what it holds.  A promoter that reads again, or
is never heard of again, has given up the move.

**Results.**
* `Clients.step`, `Clients.run`: one action and a sequence of them.
* `Clients.Sound`: the data can be locked and no member is listed twice; kept by
  every action (`Clients.Sound.step`).
* `Clients.Sound.promote_eq`: reading and moving with nothing between them is a
  promotion.
-/

namespace Courier
namespace Queue

/-- What a promoter has read of a queue and not moved yet. -/
structure Pending where
  promoter : Nat
  queue : String
  entries : List Bytes

/-- An action of a client.  Clients choose the clock readings and the fresh
identifiers as they like. -/
inductive Action where
  | push (queue : String) (job : Job) (fresh : String) (now : Calendar.Timestamp)
  | schedule (queue : String) (job : Job) (readyAt : Calendar.Timestamp) (fresh : String)
      (now : Calendar.Timestamp)
  | pop (queue : String) (wait : Duration)
  | popNonBlocking (queue : String)
  | read (promoter : Nat) (queue : String) (now : Calendar.Timestamp)
  | move (promoter : Nat)

/-- Whether an action schedules a byte string on a queue. -/
def Action.Schedules (queue : String) (entry : Bytes) : Action → Prop
  | .schedule q job _ fresh now => q = queue ∧ (job.ensureDefaults fresh now).write = entry
  | _ => False

/-- Whether an action is a step of a promoter. -/
def Action.By (promoter : Nat) : Action → Prop
  | .read p _ _ => p = promoter
  | .move p => p = promoter
  | _ => False

/-- A store, and what the promoters have read of it. -/
structure Clients where
  store : Memory
  pending : List Pending

namespace Clients

/-- A new store, of which nothing has been read, when its clock shows `clock`. -/
def start (clock : Nat) : Clients := ⟨.empty clock, []⟩

/-- The live entries of a queue from front to back. -/
def live (s : Clients) (queue : String) : List Bytes :=
  s.store.data.list queue

/-- The delayed entries of a queue. -/
def delayed (s : Clients) (queue : String) : List Bytes :=
  (s.store.data.sortedSet (delayedKey queue)).members

/-- What a promoter holds. -/
def held (s : Clients) (promoter : Nat) : Option Pending :=
  s.pending.find? fun r => r.promoter = promoter

/-- What the other promoters hold. -/
def others (s : Clients) (promoter : Nat) : List Pending :=
  s.pending.filter fun r => r.promoter ≠ promoter

/-- What a read of a queue returns. -/
def readyEntries (s : Clients) (queue : String) (now : Calendar.Timestamp) : List Bytes :=
  match answer (readReady queue now) s.store with
  | (.ok entries, _) => entries
  | (.error _, _) => []

/-- The effect of an action.  Where nothing is ready a promotion ends with its read. -/
def step (s : Clients) : Action → Clients
  | .push queue job fresh now =>
      { s with store := ((Queue.push queue job fresh now).run s.store).2 }
  | .schedule queue job readyAt fresh now =>
      { s with store := ((pushDelayedAt queue job readyAt fresh now).run s.store).2 }
  | .pop queue wait =>
      { s with store := (answer (Queue.pop queue wait) s.store).2 }
  | .popNonBlocking queue =>
      { s with store := (answer (Queue.popNonBlocking queue) s.store).2 }
  | .read promoter queue now =>
      { store := (answer (readReady queue now) s.store).2
        pending :=
          if s.readyEntries queue now = [] then s.others promoter
          else ⟨promoter, queue, s.readyEntries queue now⟩ :: s.others promoter }
  | .move promoter =>
      match s.held promoter with
      | none => s
      | some r =>
          { store := (answer (moveReady r.queue r.entries) s.store).2
            pending := s.others promoter }

/-- The effect of actions one after the other. -/
def run (s : Clients) (actions : List Action) : Clients :=
  actions.foldl step s

@[simp] theorem run_nil
    (s : Clients) :
    s.run [] = s := rfl

@[simp] theorem run_cons
    (s : Clients)
    (a : Action)
    (actions : List Action) :
    s.run (a :: actions) = (s.step a).run actions := rfl

theorem run_append
    (s : Clients)
    (before after : List Action) :
    s.run (before ++ after) = (s.run before).run after := by
  simp [run, List.foldl_append]

theorem held_mem
    {s : Clients}
    {promoter : Nat}
    {r : Pending}
    (h : s.held promoter = some r) :
    r ∈ s.pending ∧ r.promoter = promoter :=
  ⟨List.mem_of_find?_eq_some h, by simpa using List.find?_some h⟩

theorem mem_others
    {s : Clients}
    {promoter : Nat}
    {r : Pending} :
    r ∈ s.others promoter ↔ r ∈ s.pending ∧ r.promoter ≠ promoter := by
  simp [others]

theorem step_move_of_held_none
    {s : Clients}
    {promoter : Nat}
    (h : s.held promoter = none) :
    s.step (.move promoter) = s := by
  simp only [step, h]

/-- What an action may do to the data. -/
inductive Effect (s : Clients) : Action → Data → Prop
  | keep {a : Action} :
      Effect s a s.store.data
  | take {a : Action} (queue : String) :
      Effect s a (s.store.data.popBack queue).2
  | push {queue fresh : String} {job : Job} {now : Calendar.Timestamp} :
      Effect s (.push queue job fresh now)
        (s.store.data.pushFront queue (job.ensureDefaults fresh now).write)
  | schedule {queue fresh : String} {job : Job} {readyAt now : Calendar.Timestamp} :
      Effect s (.schedule queue job readyAt fresh now)
        (s.store.data.sortedAdd (delayedKey queue) (job.ensureDefaults fresh now).write
          (readyScore readyAt))
  | move {promoter : Nat} {r : Pending} (held : s.held promoter = some r) :
      Effect s (.move promoter) (s.store.data.applyAll (moves r.queue r.entries))

/-- The data can be locked, and neither a sorted set nor a read lists a member twice. -/
structure Sound (s : Clients) : Prop where
  not_poisoned : s.store.poisoned = false
  nodup_members : ∀ key, (s.store.data.sortedSet key).members.Nodup
  nodup_entries : ∀ r, r ∈ s.pending → r.entries.Nodup

theorem sound_start
    (clock : Nat) :
    (start clock).Sound where
  not_poisoned := rfl
  nodup_members key := by
    show List.Nodup []
    exact List.nodup_nil
  nodup_entries r h := by
    simp [start] at h

namespace Sound

variable {s : Clients} (hs : s.Sound)
include hs

theorem step_push
    (queue : String)
    (job : Job)
    (fresh : String)
    (now : Calendar.Timestamp) :
    s.step (.push queue job fresh now) =
      { s with
        store := { s.store with
          data := s.store.data.pushFront queue (job.ensureDefaults fresh now).write } } := by
  rw [step, push_run hs.not_poisoned]

theorem step_schedule
    (queue : String)
    (job : Job)
    (readyAt : Calendar.Timestamp)
    (fresh : String)
    (now : Calendar.Timestamp) :
    s.step (.schedule queue job readyAt fresh now) =
      { s with
        store := { s.store with
          data := s.store.data.sortedAdd (delayedKey queue)
            (job.ensureDefaults fresh now).write (readyScore readyAt) } } := by
  rw [step, pushDelayedAt_run hs.not_poisoned]

theorem step_popNonBlocking
    (queue : String) :
    s.step (.popNonBlocking queue) =
      { s with store := { s.store with data := (s.store.data.popBack queue).2 } } := by
  rw [step, popNonBlocking_answer hs.not_poisoned]

/-- A pop takes the last entry, or fails and changes nothing. -/
theorem step_pop
    (queue : String)
    (wait : Duration) :
    s.step (.pop queue wait) = s ∨
      ∃ clock, s.step (.pop queue wait) =
        { s with store := { s.store with data := (s.store.data.popBack queue).2, clock } } := by
  obtain ⟨clock, h⟩ := pop_answer hs.not_poisoned queue wait
  rw [step, h]
  split
  · exact Or.inl rfl
  · exact Or.inr ⟨clock, rfl⟩

theorem readyEntries_eq
    (queue : String)
    (now : Calendar.Timestamp) :
    s.readyEntries queue now =
      (s.store.data.sortedSet (delayedKey queue)).range .negInfinity (readyScore now) := by
  rw [readyEntries, readReady_answer hs.not_poisoned]

theorem nodup_readyEntries
    (queue : String)
    (now : Calendar.Timestamp) :
    (s.readyEntries queue now).Nodup := by
  rw [hs.readyEntries_eq]
  exact SortedSet.nodup_range (hs.nodup_members _) _ _

theorem mem_delayed_of_mem_readyEntries
    {queue : String}
    {now : Calendar.Timestamp}
    {b : Bytes}
    (h : b ∈ s.readyEntries queue now) :
    b ∈ s.delayed queue := by
  rw [hs.readyEntries_eq, SortedSet.mem_range] at h
  obtain ⟨x, hx, _⟩ := h
  exact List.mem_map.2 ⟨(x, b), hx, rfl⟩

theorem step_read_store
    (promoter : Nat)
    (queue : String)
    (now : Calendar.Timestamp) :
    (s.step (.read promoter queue now)).store = s.store := by
  simp only [step]
  rw [readReady_answer hs.not_poisoned]

theorem step_move
    {promoter : Nat}
    {r : Pending}
    (hr : s.held promoter = some r) :
    s.step (.move promoter) =
      { store := { s.store with data := s.store.data.applyAll (moves r.queue r.entries) }
        pending := s.others promoter } := by
  simp only [step, hr, moveReady_answer hs.not_poisoned]

/-- What an action leaves pending was held by another promoter or has just been read. -/
theorem mem_pending_step
    {a : Action}
    {r : Pending}
    (h : r ∈ (s.step a).pending) :
    (r ∈ s.pending ∧ ¬ a.By r.promoter) ∨
      ∃ now, a = .read r.promoter r.queue now ∧ r.entries = s.readyEntries r.queue now := by
  cases a with
  | push queue job fresh now => exact Or.inl ⟨h, id⟩
  | schedule queue job readyAt fresh now => exact Or.inl ⟨h, id⟩
  | popNonBlocking queue => exact Or.inl ⟨h, id⟩
  | pop queue wait => exact Or.inl ⟨h, id⟩
  | read promoter queue now =>
      simp only [Clients.step] at h
      split at h
      · exact Or.inl ⟨(mem_others.1 h).1, Ne.symm (mem_others.1 h).2⟩
      · rcases List.mem_cons.1 h with rfl | h
        · exact Or.inr ⟨now, rfl, rfl⟩
        · exact Or.inl ⟨(mem_others.1 h).1, Ne.symm (mem_others.1 h).2⟩
  | move promoter =>
      cases hr : s.held promoter with
      | none =>
          rw [step_move_of_held_none hr] at h
          have hne := List.find?_eq_none.1 hr r h
          exact Or.inl ⟨h, fun he => hne (by simpa using he.symm)⟩
      | some r' =>
          rw [hs.step_move hr] at h
          exact Or.inl ⟨(mem_others.1 h).1, Ne.symm (mem_others.1 h).2⟩

/-- What an action does to the data, which can still be locked. -/
theorem effect
    (a : Action) :
    s.Effect a (s.step a).store.data ∧ (s.step a).store.poisoned = false := by
  have hp := hs.not_poisoned
  cases a with
  | push queue job fresh now =>
      rw [hs.step_push]
      exact ⟨Effect.push, hp⟩
  | schedule queue job readyAt fresh now =>
      rw [hs.step_schedule]
      exact ⟨Effect.schedule, hp⟩
  | popNonBlocking queue =>
      rw [hs.step_popNonBlocking]
      exact ⟨Effect.take queue, hp⟩
  | pop queue wait =>
      rcases hs.step_pop queue wait with h | ⟨clock, h⟩
      · rw [h]
        exact ⟨Effect.keep, hp⟩
      · rw [h]
        exact ⟨Effect.take queue, hp⟩
  | read promoter queue now =>
      rw [hs.step_read_store]
      exact ⟨Effect.keep, hp⟩
  | move promoter =>
      cases hr : s.held promoter with
      | none =>
          rw [step_move_of_held_none hr]
          exact ⟨Effect.keep, hp⟩
      | some r =>
          rw [hs.step_move hr]
          exact ⟨Effect.move hr, hp⟩

theorem nodup_members_step
    (a : Action)
    (key : String) :
    ((s.step a).store.data.sortedSet key).members.Nodup := by
  have hn := hs.nodup_members key
  have he := (hs.effect a).1
  generalize (s.step a).store.data = d at he ⊢
  cases he with
  | keep => exact hn
  | take queue => simpa using hn
  | push => simpa using hn
  | schedule =>
      rw [Data.sortedSet_sortedAdd]
      split
      · exact SortedSet.nodup_members_add hn _ _
      · exact hn
  | move held =>
      rw [sortedSet_applyAll_moves]
      split
      · exact hn.sublist (List.filter_sublist.map _)
      · exact hn

theorem step
    (a : Action) :
    (s.step a).Sound where
  not_poisoned := (hs.effect a).2
  nodup_members := hs.nodup_members_step a
  nodup_entries r h := by
    rcases hs.mem_pending_step h with ⟨hr, _⟩ | ⟨now, _, hentries⟩
    · exact hs.nodup_entries r hr
    · rw [hentries]
      exact hs.nodup_readyEntries _ _

theorem run
    (actions : List Action) :
    (s.run actions).Sound := by
  induction actions generalizing s with
  | nil => exact hs
  | cons a actions ih => exact ih (hs.step a)

/-- Reading and moving with nothing between them is a promotion. -/
theorem promote_eq
    (promoter : Nat)
    (queue : String)
    (now : Calendar.Timestamp) :
    (s.run [.read promoter queue now, .move promoter]).store =
      (answer (promote queue now) s.store).2 := by
  have hread := hs.step (.read promoter queue now)
  have hstore := hs.step_read_store promoter queue now
  rw [promote_answer hs.not_poisoned, ← hs.readyEntries_eq, run_cons, run_cons, run_nil]
  by_cases he : s.readyEntries queue now = []
  · have hheld : (s.step (.read promoter queue now)).held promoter = none := by
      simp [Clients.step, he, held, others]
    rw [step_move_of_held_none hheld, hstore, he]
    rfl
  · have hheld : (s.step (.read promoter queue now)).held promoter =
        some ⟨promoter, queue, s.readyEntries queue now⟩ := by
      simp [Clients.step, he, held]
    rw [hread.step_move hheld, hstore]

end Sound
end Clients
end Queue
end Courier
