import Courier.Proofs.Remote.Commands
import Courier.Proofs.Text.Order

/-!
# Listing the keys of a server

A server lists the keys that match a pattern in pages.  Every page but the last tells where
the next one begins, and the last one tells that the listing begins anew.  Pages may be
empty and keys may come again.

**Results.**
* `Server.Alike.ask`: an answer does not depend on what was asked.
* `Server.stock_ask_lt`: every answer is one of those that can still come.
* `Server.pages`, `Server.pages_of_turns`: the pages that a server sends.
* `Server.Lists`, `Server.exists_lists`: the pages of a listing, which ends.
* `Talk.scanFrom_of_lists`: what is asked for and what comes of it, from any page on.
* `keys_of_pages`: what a listing sends and returns, and that its paging does not matter.
-/

namespace Courier
namespace Remote

namespace Server

variable {s t : Server} {c : ConnId}

/-- Two servers that differ at most in the commands that have reached them. -/
def Alike (s t : Server) : Prop :=
  s.lines = t.lines ∧ s.turns = t.turns

namespace Alike

theorem line
    (h : s.Alike t)
    (c : ConnId) :
    s.line c = t.line c := by
  rw [Server.line, Server.line, h.1]

theorem take
    (h : s.Alike t)
    (c : ConnId)
    (v w : Words) :
    (s.take c v).Alike (t.take c w) := by
  rw [Server.take, Server.take]
  simp only [h.2]
  split
  · exact ⟨h.1, rfl⟩
  · next turn rest hturns =>
      refine ⟨?_, rfl⟩
      show s.lines.modify c _ = t.lines.modify c _
      rw [h.1]

/-- Whatever they are asked, they answer alike. -/
theorem ask
    (h : s.Alike t)
    (c : ConnId)
    (v w : Words) :
    (s.ask c v).1 = (t.ask c w).1 ∧ (s.ask c v).2.Alike (t.ask c w).2 := by
  cases hclosed : (s.line c).closed with
  | true =>
      rw [ask_of_closed hclosed, ask_of_closed (h.line c ▸ hclosed)]
      exact ⟨rfl, h⟩
  | false =>
      have htaken := h.take c v w
      rw [ask_of_open hclosed, ask_of_open (h.line c ▸ hclosed), receive, receive,
        htaken.line c]
      refine ⟨rfl, ?_, htaken.2⟩
      show (s.take c v).lines.modify c _ = (t.take c w).lines.modify c _
      rw [htaken.1]

end Alike

/-- The answers that can still come on a connection. -/
def stock (s : Server) (c : ConnId) : Nat :=
  (s.line c).unread.length + s.turns.foldr (fun t n => t.answers.length + n) 0

theorem lt_length_of_open
    (h : (s.line c).closed = false) :
    c < s.lines.length := by
  by_contra hc
  simp [line, List.getElem?_eq_none (Nat.not_lt.1 hc)] at h

/-- With a command the server puts on the connection what could come. -/
theorem stock_take
    (h : (s.line c).closed = false)
    (words : Words) :
    (s.take c words).stock c = s.stock c := by
  rw [stock, unread_take (lt_length_of_open h), List.length_append, stock, Nat.add_assoc]
  congr 1
  cases hturns : s.turns with
  | nil => simp [take, nextAnswers, hturns]
  | cons turn rest => simp [take, nextAnswers, hturns, push, update]

/-- **An answer is one of those that could come.** -/
theorem stock_ask_lt
    {words : Words}
    {r : Reply}
    (h : (s.ask c words).1 = .ok r) :
    (s.ask c words).2.stock c < s.stock c := by
  cases hclosed : (s.line c).closed with
  | true =>
      rw [ask_of_closed hclosed] at h
      exact absurd h (by simp)
  | false =>
      rw [ask_of_open hclosed] at h ⊢
      rw [← stock_take hclosed words]
      have hc : c < (s.take c words).lines.length := by
        rw [length_take]
        exact lt_length_of_open hclosed
      rcases hread : ((s.take c words).line c).read with ⟨r', l⟩
      have hr : r' = .ok r := by
        rw [receive, hread] at h
        exact h
      subst hr
      rw [receive, hread, stock, line_update hc]
      exact Nat.add_lt_add_right (Line.length_of_read_ok hread) _

end Server

/-- A page: where the next one begins, or nought, and the keys. -/
abbrev Page := Nat × List String

/-- Reads a page. -/
def Reply.page : Reply → Except Fault Page :=
  pair natural (list text)

namespace Server

variable {s t : Server} {c : ConnId}

/-- Asks for a page. -/
def askPage (s : Server) (c : ConnId) (words : Words) : Except Fault Page × Server :=
  ((s.ask c words).1 >>= Reply.page, (s.ask c words).2)

/-- The pages that come next on a connection, as they are read.  They are the same whatever
is asked. -/
def pages (c : ConnId) : Nat → Server → List (Except Fault Page)
  | 0, _ => []
  | n + 1, s => (s.askPage c []).1 :: pages c n (s.askPage c []).2

theorem Alike.askPage
    (h : s.Alike t)
    (c : ConnId)
    (v w : Words) :
    (s.askPage c v).1 = (t.askPage c w).1 ∧ (s.askPage c v).2.Alike (t.askPage c w).2 := by
  obtain ⟨hanswer, hafter⟩ := h.ask c v w
  exact ⟨congrArg (· >>= Reply.page) hanswer, hafter⟩

theorem Alike.pages
    (h : s.Alike t)
    (c : ConnId)
    (n : Nat) :
    Server.pages c n s = Server.pages c n t := by
  induction n generalizing s t with
  | zero => rfl
  | succ n ih =>
      obtain ⟨hpage, hafter⟩ := h.askPage c [] []
      rw [Server.pages, Server.pages, hpage, ih hafter]

theorem pages_succ
    (s : Server)
    (c : ConnId)
    (n : Nat)
    (words : Words) :
    pages c (n + 1) s = (s.askPage c words).1 :: pages c n (s.askPage c words).2 := by
  obtain ⟨hpage, hafter⟩ := Alike.askPage (s := s) (t := s) ⟨rfl, rfl⟩ c [] words
  rw [pages, hpage, hafter.pages c n]

/-- The turn of a server that gives one answer. -/
def turnOf (r : Reply) : Turn :=
  { answers := [r] }

/-- A command is answered with the next turn where nothing else is to be read. -/
theorem ask_of_turn
    {r : Reply}
    {turns : List Turn}
    (hopen : (s.line c).closed = false)
    (hunread : (s.line c).unread = [])
    (hturns : s.turns = turnOf r :: turns)
    (hshallow : r.overflow? = none)
    (words : Words) :
    (s.ask c words).1 = r.outcome ∧ (s.ask c words).2.turns = turns ∧
      (s.ask c words).2.line c = s.line c := by
  have hc : c < (s.take c words).lines.length := by
    rw [length_take]
    exact lt_length_of_open hopen
  have htake : s.take c words =
      { s with turns, sent := s.sent ++ [(c, words)] }.push c [r] false := by
    rw [take]
    simp only [hturns]
    rfl
  have hline : (s.take c words).line c = { s.line c with unread := [r] } := by
    have hpushed : ({ s with turns, sent := s.sent ++ [(c, words)] }.push c [r] false).line c =
        { s.line c with
          unread := (s.line c).unread ++ [r], closed := (s.line c).closed || false } :=
      line_update (s := { s with turns, sent := s.sent ++ [(c, words)] })
        (lt_length_of_open hopen) _
    rw [htake, hpushed, hunread, Bool.or_false]
    rfl
  have hread : ((s.take c words).line c).read = (r.outcome, s.line c) := by
    rw [hline, Line.read]
    simp only [hshallow]
    rw [← hunread]
  rw [ask_of_open hopen, receive, hread]
  refine ⟨rfl, ?_, line_update hc _⟩
  rw [htake]
  rfl

/-- **A server that answers every command with one of some replies** sends the pages that are
read from these. -/
theorem pages_of_turns
    {replies : List Reply}
    (hopen : (s.line c).closed = false)
    (hunread : (s.line c).unread = [])
    (hturns : s.turns = replies.map turnOf)
    (hshallow : ∀ r ∈ replies, r.overflow? = none) :
    s.pages c replies.length = replies.map fun r => r.outcome >>= Reply.page := by
  induction replies generalizing s with
  | nil => rfl
  | cons r replies ih =>
      obtain ⟨hr, hrest⟩ := List.forall_mem_cons.1 hshallow
      obtain ⟨hanswer, hturns', hline⟩ := ask_of_turn hopen hunread hturns hr []
      rw [List.length_cons, pages, askPage, hanswer, List.map_cons,
        ih (by rw [hline, hopen]) (by rw [hline, hunread]) hturns' hrest]

/-- The pages of a listing: some that tell where the next one begins, and the last one, which
does not or which fails. -/
def Lists (s : Server) (c : ConnId) (earlier : List Page) (last : Except Fault (List String)) :
    Prop :=
  s.pages c (earlier.length + 1) = earlier.map .ok ++ [last.map fun keys => (0, keys)] ∧
    ∀ p ∈ earlier, p.1 ≠ 0

theorem lists_nil_iff
    {last : Except Fault (List String)}
    (words : Words) :
    s.Lists c [] last ↔ (s.askPage c words).1 = last.map fun keys => (0, keys) := by
  rw [Lists, List.length_nil, pages_succ s c 0 words]
  simp [pages]

theorem lists_cons_iff
    {p : Page}
    {earlier : List Page}
    {last : Except Fault (List String)}
    (words : Words) :
    s.Lists c (p :: earlier) last ↔
      (s.askPage c words).1 = .ok p ∧ p.1 ≠ 0 ∧ (s.askPage c words).2.Lists c earlier last := by
  rw [Lists, Lists, List.length_cons, pages_succ s c _ words, List.map_cons, List.cons_append,
    List.cons.injEq, List.forall_mem_cons, and_assoc, and_left_comm (a := _ = _) (b := p.1 ≠ 0)]

theorem stock_askPage_lt
    {words : Words}
    {p : Page}
    (h : (s.askPage c words).1 = .ok p) :
    (s.askPage c words).2.stock c < s.stock c := by
  rw [askPage] at h ⊢
  rcases hanswer : (s.ask c words).1 with f | r
  · rw [hanswer] at h
    exact absurd h (by simp [bind, Except.bind])
  · exact stock_ask_lt hanswer

/-- **Every listing ends**, with a page that is the last or with one that fails. -/
theorem exists_lists
    (s : Server)
    (c : ConnId) :
    ∃ earlier last, s.Lists c earlier last := by
  induction hstock : s.stock c using Nat.strong_induction_on generalizing s with
  | h stock ih =>
      rcases hpage : (s.askPage c []).1 with f | ⟨next, keys⟩
      · exact ⟨[], .error f, (lists_nil_iff []).2 hpage⟩
      · by_cases hnext : next = 0
        · subst hnext
          exact ⟨[], .ok keys, (lists_nil_iff []).2 hpage⟩
        · have hlt := stock_askPage_lt hpage
          rw [hstock] at hlt
          obtain ⟨earlier, last, hlists⟩ := ih _ hlt _ rfl
          exact ⟨(next, keys) :: earlier, last, (lists_cons_iff []).2 ⟨hpage, hnext, hlists⟩⟩

end Server

namespace Talk

variable {s : Server} {c : ConnId}

section Scan

variable {pattern : String} {fuel cursor : Nat}

theorem scanFrom_run
    (pattern : String)
    (c : ConnId)
    (fuel cursor : Nat)
    (s : Server) :
    (scanFrom pattern c (fuel + 1) cursor).run s =
      match s.askPage c (Command.scan cursor pattern) with
      | (.error f, t) => (.error f, t)
      | (.ok (next, keys), t) =>
          if next = 0 then (.ok keys, t)
          else
            (((scanFrom pattern c fuel next).run t).1.map (keys ++ ·),
              ((scanFrom pattern c fuel next).run t).2) := by
  have hquery : (query (Command.scan cursor pattern)
      (Reply.pair Reply.natural (Reply.list Reply.text)) c).run s =
        s.askPage c (Command.scan cursor pattern) := query_run _ Reply.page c s
  rw [scanFrom, bind_run, hquery]
  rcases s.askPage c (Command.scan cursor pattern) with ⟨f | ⟨next, keys⟩, t⟩
  · rfl
  · simp only
    split
    · rfl
    · rw [bind_run]
      rcases (scanFrom pattern c fuel next).run t with ⟨f | later, u⟩
      · rfl
      · rfl

/-- The last page, or one that fails. -/
theorem scanFrom_of_last
    {last : Except Fault (List String)}
    (h : (s.askPage c (Command.scan cursor pattern)).1 = last.map fun keys => (0, keys)) :
    (scanFrom pattern c (fuel + 1) cursor).run s =
      (last, (s.askPage c (Command.scan cursor pattern)).2) := by
  rw [scanFrom_run]
  rcases hask : s.askPage c (Command.scan cursor pattern) with ⟨page, t⟩
  obtain rfl : page = last.map fun keys => (0, keys) := by rw [← h, hask]
  cases last with
  | error f => rfl
  | ok keys => rfl

/-- A page with others behind it. -/
theorem scanFrom_of_next
    {p : Page}
    (h : (s.askPage c (Command.scan cursor pattern)).1 = .ok p)
    (hnext : p.1 ≠ 0) :
    (scanFrom pattern c (fuel + 1) cursor).run s =
      let r := (scanFrom pattern c fuel p.1).run (s.askPage c (Command.scan cursor pattern)).2
      (r.1.map (p.2 ++ ·), r.2) := by
  rw [scanFrom_run]
  rcases hask : s.askPage c (Command.scan cursor pattern) with ⟨page, t⟩
  obtain rfl : page = .ok p := by rw [← h, hask]
  exact if_neg hnext

end Scan

/-- The commands that ask for pages. -/
def scans (c : ConnId) (pattern : String) (cursors : List Nat) : List (ConnId × Words) :=
  cursors.map fun cursor => (c, Command.scan cursor pattern)

/-- What has reached a server of the commands that ask for pages: all of them, unless the
connection was closed before the last. -/
def Scanned (c : ConnId) (pattern : String) (cursors : List Nat) (broken : Prop) (s t : Server) :
    Prop :=
  t.sent = s.sent ++ scans c pattern cursors ∨
    broken ∧ t.sent = s.sent ++ scans c pattern cursors.dropLast

theorem Scanned.cons
    {pattern : String}
    {cursor next : Nat}
    {cursors : List Nat}
    {broken : Prop}
    {t u : Server}
    (hfirst : t.sent = s.sent ++ [(c, Command.scan cursor pattern)])
    (h : Scanned c pattern (next :: cursors) broken t u) :
    Scanned c pattern (cursor :: next :: cursors) broken s u := by
  rcases h with hall | ⟨hbroken, hrest⟩
  · left
    rw [hall, hfirst, List.append_assoc]
    rfl
  · right
    refine ⟨hbroken, ?_⟩
    rw [hrest, hfirst, List.append_assoc]
    rfl

/-- Asking for the last page. -/
theorem scanned_askPage
    {r : Except Fault Page}
    (s : Server)
    (c : ConnId)
    (pattern : String)
    (cursor : Nat)
    (h : (s.askPage c (Command.scan cursor pattern)).1 = r) :
    Scanned c pattern [cursor] (r = .error .brokenPipe) s
      (s.askPage c (Command.scan cursor pattern)).2 := by
  rcases s.sent_ask c (Command.scan cursor pattern) with hask | hsent
  · right
    rw [Server.askPage, hask] at h ⊢
    exact ⟨h.symm, (List.append_nil _).symm⟩
  · exact Or.inl hsent

/-- **From any page on.**  Each page is asked for where the one before it told, and the keys
are those of all pages, unless the last one fails. -/
theorem scanFrom_of_lists
    {earlier : List Page}
    {last : Except Fault (List String)}
    (h : s.Lists c earlier last)
    {fuel : Nat}
    (hfuel : s.stock c ≤ fuel)
    (pattern : String)
    (cursor : Nat) :
    let r := (scanFrom pattern c (fuel + 1) cursor).run s
    r.1 = last.map (earlier.flatMap Prod.snd ++ ·) ∧
      Scanned c pattern (cursor :: earlier.map Prod.fst) (last = .error .brokenPipe) s r.2 := by
  induction earlier generalizing s fuel cursor with
  | nil =>
      have hpage := (Server.lists_nil_iff (Command.scan cursor pattern)).1 h
      have hscanned := scanned_askPage s c pattern cursor hpage
      rw [scanFrom_of_last hpage]
      cases last with
      | error f => exact ⟨rfl, by simpa [Except.map] using hscanned⟩
      | ok keys => exact ⟨rfl, by simpa [Except.map] using hscanned⟩
  | cons p earlier ih =>
      obtain ⟨hpage, hnext, hlists⟩ :=
        (Server.lists_cons_iff (Command.scan cursor pattern)).1 h
      have hlt := Server.stock_askPage_lt hpage
      have hsent : (s.askPage c (Command.scan cursor pattern)).2.sent =
          s.sent ++ [(c, Command.scan cursor pattern)] := by
        rcases scanned_askPage s c pattern cursor hpage with hsent | ⟨hbroken, -⟩
        · exact hsent
        · exact absurd hbroken (by simp)
      obtain ⟨fuel, rfl⟩ := Nat.exists_eq_succ_of_ne_zero (n := fuel) (by omega)
      obtain ⟨hkeys, hscanned⟩ := ih hlists (Nat.le_of_lt_succ (Nat.lt_of_lt_of_le hlt hfuel)) p.1
      rw [scanFrom_of_next hpage hnext]
      refine ⟨(congrArg (Except.map (p.2 ++ ·)) hkeys).trans ?_, hscanned.cons hsent⟩
      cases last with
      | error f => rfl
      | ok keys => simp [Except.map]

/-- The keys of some pages and of the last one. -/
def reported (earlier : List Page) (last : List String) : List String :=
  earlier.flatMap Prod.snd ++ last

/-- **A listing** puts the keys of all pages in order, each once. -/
theorem keysMatching_of_lists
    {earlier : List Page}
    {last : Except Fault (List String)}
    (h : s.Lists c earlier last)
    (pattern : String) :
    let r := (keysMatching pattern c).run s
    r.1 = last.map (fun keys =>
        ((reported earlier keys).mergeSort fun a b => decide (a ≤ b)).eraseReps) ∧
      Scanned c pattern (0 :: earlier.map Prod.fst) (last = .error .brokenPipe) s r.2 := by
  obtain ⟨hkeys, hscanned⟩ := scanFrom_of_lists h (Nat.le_refl _) pattern 0
  have hfuel : (answersLeft c).run s = (.ok (s.stock c), s) := rfl
  rw [keysMatching, bind_run, hfuel]
  simp only
  rw [bind_run]
  rcases hrun : (scanFrom pattern c (s.stock c + 1) 0).run s with ⟨r, t⟩
  rw [hrun] at hkeys hscanned
  simp only at hkeys
  subst hkeys
  cases last with
  | error f => exact ⟨rfl, hscanned⟩
  | ok keys => exact ⟨rfl, hscanned⟩

end Talk

namespace Client

variable {k l : Client} {c : ConnId}

/-- Listing the keys, as a call of the store. -/
def listKeys (k : Client) (pattern : String) : Except StoreError (List String) × Client :=
  (Store.keysMatching pattern : StoreM Client (List String)).answer k

theorem listKeys_of_lists
    (h : k.checkout = (.ok c, l))
    {earlier : List Page}
    {last : Except Fault (List String)}
    (hlists : l.server.Lists c earlier last)
    (pattern : String) :
    (k.listKeys pattern).1 =
        (last.map fun keys =>
          ((Talk.reported earlier keys).mergeSort fun a b => decide (a ≤ b)).eraseReps).mapError
            Fault.toStore ∧
      Talk.Scanned c pattern (0 :: earlier.map Prod.fst) (last = .error .brokenPipe) l.server
        (k.listKeys pattern).2.server ∧
      (k.listKeys pattern).2.pool = (l.giveBack c last).pool := by
  obtain ⟨hkeys, hscanned⟩ := Talk.keysMatching_of_lists hlists pattern
  have hcall : k.listKeys pattern = k.withConn (Talk.keysMatching pattern) := rfl
  rw [hcall, withConn_of_checkout h]
  refine ⟨congrArg (Except.mapError Fault.toStore) hkeys, hscanned, ?_⟩
  simp only [hkeys]
  cases last with
  | error f => rfl
  | ok keys => rfl

end Client

/-- **Listing the keys of a server.**  A connection was taken from the pool, for which no
command was sent that does not set it up.  The pages that the server sends on it end with one
that is the last, or with one that fails.

Where one is the last, each page was asked for once, the first from the beginning and every
other where the one before it told, always with the pattern of the caller.  The keys of all
pages are returned, in the order of their bytes and each once, and the connection is given
back.  Where one fails, so does the call, with the failure of that page.  The pages up to it
were asked for alike, except for that page itself if the connection had been closed, and the
connection is given back unless it was lost.  Either way as many slots are in use as before.

Two servers whose pages have the same keys are listed alike, whatever their pages are. -/
theorem keys_of_pages
    {k l : Client}
    {c : ConnId}
    (h : k.checkout = (.ok c, l))
    (pattern : String) :
    let call := k.listKeys pattern
    (∃ earlier last, l.server.Lists c earlier last) ∧
    (∀ earlier last, l.server.Lists c earlier (.ok last) →
      call.2.server.sent =
          l.server.sent ++
            (0 :: earlier.map Prod.fst).map (fun cursor => (c, Command.scan cursor pattern)) ∧
        call.2.pool = l.pool.checkin (some c) ∧
        ∃ keys, call.1 = .ok keys ∧ keys.Pairwise (fun a b => Utf8.encode a < Utf8.encode b) ∧
          ∀ key, key ∈ keys ↔ key ∈ Talk.reported earlier last) ∧
    (∀ earlier f, l.server.Lists c earlier (.error f) →
      call.1 = .error f.toStore ∧
        Talk.Scanned c pattern (0 :: earlier.map Prod.fst) (f = .brokenPipe) l.server
          call.2.server ∧
        call.2.pool = l.pool.checkin (if f.isLost then none else some c)) ∧
    (∃ setup, l.server.sent = k.server.sent ++ setup ∧ ∀ e ∈ setup, Talk.SetsUp e.2) ∧
    call.2.pool.inUse = k.pool.inUse ∧
    ∀ (k' l' : Client) (c' : ConnId) (pattern' : String), k'.checkout = (.ok c', l') →
      ∀ earlier last earlier' last', l.server.Lists c earlier (.ok last) →
        l'.server.Lists c' earlier' (.ok last') →
        (∀ key, key ∈ Talk.reported earlier last ↔ key ∈ Talk.reported earlier' last') →
        (k'.listKeys pattern').1 = call.1 := by
  intro call
  refine ⟨l.server.exists_lists c, fun earlier last hlists => ?_, fun earlier f hlists => ?_,
    ?_, (k.withConn_keeps (Talk.keysMatching pattern)).1, ?_⟩
  · obtain ⟨hkeys, hscanned, hpool⟩ := Client.listKeys_of_lists h hlists pattern
    refine ⟨hscanned.resolve_right fun hbroken => absurd hbroken.1 (by simp), hpool, _, hkeys,
      (Text.pairwise_sorted _).imp Utf8.encode_lt_encode, fun key => Text.mem_sorted⟩
  · obtain ⟨hkeys, hscanned, hpool⟩ := Client.listKeys_of_lists h hlists pattern
    refine ⟨hkeys, ?_, hpool⟩
    simpa using hscanned
  · have hsent := k.sent_checkout
    rw [h] at hsent
    exact hsent
  · intro k' l' c' pattern' h' earlier last earlier' last' hlists hlists' hsame
    obtain ⟨hkeys, -, -⟩ := Client.listKeys_of_lists h hlists pattern
    obtain ⟨hkeys', -, -⟩ := Client.listKeys_of_lists h' hlists' pattern'
    have heq : ((Talk.reported earlier' last').mergeSort fun a b => decide (a ≤ b)).eraseReps =
        ((Talk.reported earlier last).mergeSort fun a b => decide (a ≤ b)).eraseReps :=
      (Text.pairwise_sorted _).eq_of_mem_iff (Text.pairwise_sorted _) fun key => by
        rw [Text.mem_sorted, Text.mem_sorted, hsame]
    rw [hkeys', hkeys]
    exact congrArg (fun keys => Except.ok keys) heq

/-- A page as a server sends it. -/
def Reply.ofPage (cursor : String) (keys : List String) : Reply :=
  .array [.bulk (Bytes.ofAscii cursor), .array (keys.map fun key => .bulk (Bytes.ofAscii key))]

/-- A client with one connection, to a server that answers with some pages. -/
def Client.ofPages (pages : List Reply) : Client where
  server :=
    { files := []
      network := .down
      clock := 0
      turns := pages.map Server.turnOf
      lines := [{ unread := [] }]
      sent := [] }
  endpoint := ⟨.socket [], none, none⟩
  config := {}
  pool := { idle := [0], inUse := 0, maxSize := 1 }
  pending := []

/-- Its connection is taken. -/
theorem Client.checkout_ofPages
    (pages : List Reply) :
    (ofPages pages).checkout =
      (.ok 0, { ofPages pages with pool := { idle := [], inUse := 1, maxSize := 1 } }) := by
  have hd : (ofPages pages).deadline? = some 1000000000 := by
    show Courier.deadline? 0 (.ofMillis 1000) = _
    decide
  rw [checkout, hd]
  rfl

/-- Two keys, one of them twice and with an empty page between, and on one page. -/
theorem scattered_keys_listed :
    let scattered := Client.ofPages [.ofPage "7" ["b"], .ofPage "3" [], .ofPage "0" ["a", "b"]]
    let together := Client.ofPages [.ofPage "0" ["b", "a"]]
    (∃ l, scattered.checkout = (.ok 0, l) ∧
      l.server.Lists 0 [(7, ["b"]), (3, [])] (.ok ["a", "b"])) ∧
    (scattered.listKeys "*").2.server.sent =
      [(0, Command.scan 0 "*"), (0, Command.scan 7 "*"), (0, Command.scan 3 "*")] ∧
    (together.listKeys "?").1 = (scattered.listKeys "*").1 := by
  intro scattered together
  have hscattered : scattered.server.Lists 0 [(7, ["b"]), (3, [])] (.ok ["a", "b"]) :=
    ⟨by decide +kernel, by decide⟩
  have htogether : together.server.Lists 0 [] (.ok ["b", "a"]) :=
    ⟨by decide +kernel, by decide⟩
  have hcheckout : scattered.checkout = (.ok 0, _) := Client.checkout_ofPages _
  obtain ⟨-, hlisted, -, -, -, hsame⟩ := keys_of_pages hcheckout "*"
  refine ⟨⟨_, hcheckout, hscattered⟩, (hlisted _ _ hscattered).1, ?_⟩
  refine hsame together _ 0 "?" (Client.checkout_ofPages _) _ _ _ _ hscattered htogether
    fun key => ?_
  show key ∈ ["b", "a", "b"] ↔ key ∈ ["b", "a"]
  grind

end Remote
end Courier
