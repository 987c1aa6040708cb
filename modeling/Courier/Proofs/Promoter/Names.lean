import Courier.Promoter.Settings
import Courier.Proofs.Text.Blank

/-!
# Names in a list with commas

The queues of the promoter are listed in one text: names with commas between them, with
white space around the names and with blank pieces wherever one likes.  Whatever of this
stands between the names, reading gives them in order and with repeats, and a text that is
accepted is such a list of the names that were read.

**Results.**
* `IsName`: the names that can be listed.
* `Piece`, `listing`: what stands between commas, and the text of a list.
* `Lists`, `names_eq_iff`: what is read from a list.
* `queues_of_listing`: the lists that the promoter accepts, and what it makes of them.
-/

namespace Courier

namespace Text

theorem splitOn_eq
    (sep : Char)
    (cs : List Char) :
    splitOn sep cs = cs.splitOn sep := by
  induction cs with
  | nil => rfl
  | cons c cs ih =>
      rw [splitOn, List.splitOn_eq_splitOnP, List.splitOnP_cons_eq_if_modifyHead,
        ← List.splitOn_eq_splitOnP, ih]
      simp only [beq_iff_eq]
      cases hpieces : cs.splitOn sep with
      | nil => exact absurd hpieces (List.splitOn_ne_nil sep cs)
      | cons p ps => rfl

/-- A separator stands in no piece. -/
theorem notMem_of_mem_splitOn
    {sep : Char}
    {cs p : List Char}
    (h : p ∈ splitOn sep cs) :
    sep ∉ p := by
  induction cs generalizing p with
  | nil =>
      rw [splitOn, List.mem_singleton] at h
      rw [h]
      exact List.not_mem_nil
  | cons c cs ih =>
      rw [splitOn] at h
      split at h
      · rcases List.mem_cons.1 h with rfl | h
        · exact List.not_mem_nil
        · exact ih h
      · next hc =>
          have hfirst : ∀ q, sep ∉ q → sep ∉ c :: q := fun q hq =>
            List.not_mem_cons_of_ne_of_not_mem (Ne.symm hc) hq
          split at h
          · rw [List.mem_singleton.1 h]
            exact hfirst [] List.not_mem_nil
          · next q qs hpieces =>
              rw [hpieces] at ih
              rcases List.mem_cons.1 h with rfl | h
              · exact hfirst q (ih List.mem_cons_self)
              · exact ih (List.mem_cons_of_mem q h)

end Text

namespace PromoterSettings

/-- A name that can be listed. -/
structure IsName (name : String) : Prop where
  ne_empty : name ≠ ""
  noComma : ',' ∉ name.toList
  bare : Text.Bare name.toList

/-- What stands between two commas: white space alone, or a name with white space around
it. -/
inductive Piece where
  | blank (space : Text.Blanks)
  | name (before : Text.Blanks) (name : String) (after : Text.Blanks)

namespace Piece

/-- The text of a piece. -/
def chars : Piece → List Char
  | blank space => space.val
  | name before n after => before.val ++ n.toList ++ after.val

/-- The name in a piece. -/
def name? : Piece → Option String
  | blank _ => none
  | name _ n _ => some n

end Piece

/-- The text of a list: its pieces with commas between them. -/
def listing (pieces : List Piece) : String :=
  String.ofList ([','].intercalate (pieces.map Piece.chars))

/-- The names in a list. -/
def listed (pieces : List Piece) : List String :=
  pieces.filterMap Piece.name?

/-- A text is a list of names. -/
def Lists (list : String) (ns : List String) : Prop :=
  (∀ n ∈ ns, IsName n) ∧ ∃ pieces, list = listing pieces ∧ listed pieces = ns

/-- What is read from the text between two commas. -/
def pieceName (cs : List Char) : String :=
  Text.trim (String.ofList cs)

theorem names_eq
    (list : String) :
    names list = ((Text.splitOn ',' list.toList).map pieceName).filter (· ≠ "") := rfl

namespace Piece

variable {piece : Piece}

theorem comma_notMem_chars
    (h : ∀ n ∈ piece.name?, IsName n) :
    ',' ∉ piece.chars := by
  have hblank : ∀ w : Text.Blanks, ',' ∉ w.val := fun w hmem =>
    absurd (w.property _ hmem) (by decide)
  cases piece with
  | blank space => exact hblank space
  | name before n after =>
      simp only [chars, List.mem_append, not_or]
      exact ⟨⟨hblank before, (h n rfl).noComma⟩, hblank after⟩

/-- What is left of a piece is its name. -/
theorem pieceName_chars
    (h : ∀ n ∈ piece.name?, IsName n) :
    pieceName piece.chars = piece.name?.getD "" := by
  rw [pieceName, Text.trim_eq_iff, String.toList_ofList]
  cases piece with
  | blank space =>
      have hchars : space.val ++ [] ++ [] = space.val := by
        rw [List.append_nil, List.append_nil]
      exact ⟨Text.bare_nil, space, .nil, hchars.symm⟩
  | name before n after => exact ⟨(h n rfl).bare, before, after, rfl⟩

end Piece

theorem filter_pieceName
    {pieces : List Piece}
    (h : ∀ n ∈ listed pieces, IsName n) :
    ((pieces.map Piece.chars).map pieceName).filter (· ≠ "") = listed pieces := by
  induction pieces with
  | nil => rfl
  | cons piece pieces ih =>
      have hrest := ih fun n hn => h n <| by
        obtain ⟨p, hp, hname⟩ := List.mem_filterMap.1 hn
        exact List.mem_filterMap.2 ⟨p, List.mem_cons_of_mem piece hp, hname⟩
      have hpiece : ∀ n ∈ piece.name?, IsName n := fun n hn =>
        h n (List.mem_filterMap.2 ⟨piece, List.mem_cons_self, hn⟩)
      rw [List.map_cons, List.map_cons, Piece.pieceName_chars hpiece, List.filter_cons, hrest]
      cases hname : piece.name? with
      | none => simp [listed, hname]
      | some n => simp [listed, hname, (hpiece n hname).ne_empty]

/-- **A list is read as the names in it.** -/
theorem names_listing
    {pieces : List Piece}
    (h : ∀ n ∈ listed pieces, IsName n) :
    names (listing pieces) = listed pieces := by
  have hcomma : ∀ cs ∈ pieces.map Piece.chars, ',' ∉ cs := by
    intro cs hcs
    obtain ⟨piece, hpiece, rfl⟩ := List.mem_map.1 hcs
    exact piece.comma_notMem_chars fun n hn => h n (List.mem_filterMap.2 ⟨piece, hpiece, hn⟩)
  cases pieces with
  | nil => rfl
  | cons piece pieces =>
      rw [names_eq, listing, String.toList_ofList, Text.splitOn_eq,
        List.splitOn_intercalate _ hcomma (List.cons_ne_nil _ _), filter_pieceName h]

/-- A text without a comma is a piece. -/
theorem exists_piece
    {cs : List Char}
    (h : ',' ∉ cs) :
    ∃ piece : Piece, piece.chars = cs ∧ (∀ n ∈ piece.name?, IsName n) := by
  obtain ⟨hbare, before, after, hcs⟩ := Text.trim_eq_iff.1 (rfl : _ = pieceName cs)
  rw [String.toList_ofList] at hcs
  rcases eq_or_ne (pieceName cs) "" with hempty | hempty
  · refine ⟨.blank ⟨cs, ?_⟩, rfl, fun n hn => absurd hn (by simp [Piece.name?])⟩
    rw [hcs, hempty]
    intro c hc
    simp only [String.toList_empty, List.append_nil, List.mem_append] at hc
    exact hc.elim (before.property c) (after.property c)
  · refine ⟨.name before (pieceName cs) after, hcs.symm, fun n hn => ?_⟩
    obtain rfl := Option.some.inj hn
    refine ⟨hempty, fun hmem => h ?_, hbare⟩
    rw [hcs]
    exact List.mem_append_left _ (List.mem_append_right _ hmem)

/-- **Every text is a list** of the names that are read from it. -/
theorem lists_names
    (list : String) :
    Lists list (names list) := by
  have hpieces : ∀ texts : List (List Char), (∀ cs ∈ texts, ',' ∉ cs) →
      ∃ pieces, pieces.map Piece.chars = texts ∧ ∀ n ∈ listed pieces, IsName n := by
    intro texts
    induction texts with
    | nil => exact fun _ => ⟨[], rfl, fun n hn => absurd hn List.not_mem_nil⟩
    | cons cs texts ih =>
        intro hcomma
        obtain ⟨piece, hchars, hname⟩ := exists_piece (hcomma cs List.mem_cons_self)
        obtain ⟨pieces, htexts, hnames⟩ := ih fun ds hds => hcomma ds (List.mem_cons_of_mem cs hds)
        refine ⟨piece :: pieces, by rw [List.map_cons, hchars, htexts], fun n hn => ?_⟩
        obtain ⟨p, hp, hpn⟩ := List.mem_filterMap.1 hn
        rcases List.mem_cons.1 hp with rfl | hp
        · exact hname n hpn
        · exact hnames n (List.mem_filterMap.2 ⟨p, hp, hpn⟩)
  obtain ⟨pieces, htexts, hnames⟩ := hpieces (Text.splitOn ',' list.toList) fun cs hcs =>
    Text.notMem_of_mem_splitOn hcs
  have hlist : list = listing pieces := by
    rw [listing, htexts, Text.splitOn_eq, List.intercalate_splitOn, String.ofList_toList]
  have hread : names list = listed pieces := by
    rw [hlist]
    exact names_listing hnames
  rw [hread]
  exact ⟨hnames, pieces, hlist, rfl⟩

theorem names_eq_iff
    {list : String}
    {ns : List String} :
    names list = ns ↔ Lists list ns := by
  constructor
  · rintro rfl
    exact lists_names list
  · rintro ⟨hnames, pieces, rfl, rfl⟩
    exact names_listing hnames

example : names ",\u3000a b\u2003,, \t,a b,\u00a0" = ["a b", "a b"] := by decide

/-- Names with a comma and nothing else between them are a list. -/
theorem lists_intercalate
    {ns : List String}
    (h : ∀ n ∈ ns, IsName n) :
    Lists (",".intercalate ns) ns := by
  refine ⟨h, ns.map fun n => .name .nil n .nil, ?_, ?_⟩
  · have hchars : (Piece.chars ∘ fun n => .name .nil n .nil) = String.toList := by
      funext n
      exact List.append_nil n.toList
    refine String.toList_inj.1 ?_
    rw [String.toList_intercalate, listing, List.map_map, hchars]
    exact String.toList_ofList.symm
  · rw [listed, List.filterMap_map]
    exact List.filterMap_some

/-- The queues in variables. -/
def queuesIn (vars : Variables) : Except SettingsError (List String) :=
  let ns := names ((vars queuesVariable).getD "")
  if ns = [] then .error (.missing queuesVariable) else .ok ns

/-- The settings are read in this order. -/
theorem read_eq
    (vars : Variables) :
    read vars = (do
      let store ← StoreConfig.read vars
      let queues ← queuesIn vars
      let interval ← Settings.value vars intervalVariable (.ofMillis 1000) interval?
      .ok { store, queues, interval }) := by
  rw [read]
  refine bind_congr fun store => ?_
  simp only [queuesIn]
  split
  · rfl
  · rfl

/-- Variables of which only the list of the queues is set. -/
def listOnly (list : String) : Variables :=
  fun name => if name = queuesVariable then some list else none

/-- The settings with some queues and everything else by default. -/
def ofQueues (queues : List String) : PromoterSettings :=
  { store := {}, queues, interval := .ofMillis 1000 }

theorem read_listOnly
    (list : String) :
    read (listOnly list) =
      if names list = [] then .error (.missing queuesVariable)
      else .ok (ofQueues (names list)) := by
  have hstore : StoreConfig.read (listOnly list) = .ok {} := rfl
  have hinterval : Settings.value (listOnly list) intervalVariable (.ofMillis 1000) interval? =
      .ok (.ofMillis 1000) := rfl
  have hqueues : queuesIn (listOnly list) =
      if names list = [] then .error (.missing queuesVariable) else .ok (names list) := rfl
  rw [read_eq, hstore, hinterval, hqueues]
  split
  · rfl
  · rfl

theorem read_listOnly_of_lists
    {list : String}
    {ns : List String}
    (h : Lists list ns)
    (hne : ns ≠ []) :
    read (listOnly list) = .ok (ofQueues ns) := by
  rw [read_listOnly, names_eq_iff.2 h, if_neg hne]

/-- **The queues are the names that are listed.**  A list of one or more names, whatever white
space stands around them and however many blank pieces before, between and behind them, is
read as these names, in order and with repeats; all else has its default.  Every text that is
accepted is such a list of the names that were read, which are not empty, have no comma and
no white space at their ends; and the same names with a comma and nothing else between them
are read in the same way. -/
theorem queues_of_listing :
    (∀ (ns : List String) (pieces : List Piece),
      ns ≠ [] → (∀ n ∈ ns, IsName n) → listed pieces = ns →
        read (listOnly (listing pieces)) = .ok (ofQueues ns)) ∧
    ∀ (list : String) (s : PromoterSettings), read (listOnly list) = .ok s →
      s = ofQueues s.queues ∧ s.queues ≠ [] ∧ (∀ n ∈ s.queues, IsName n) ∧
        (∃ pieces, list = listing pieces ∧ listed pieces = s.queues) ∧
        read (listOnly (",".intercalate s.queues)) = .ok s := by
  refine ⟨fun ns pieces hne hnames hlisted => ?_, fun list s hread => ?_⟩
  · exact read_listOnly_of_lists ⟨hnames, pieces, rfl, hlisted⟩ hne
  · rw [read_listOnly] at hread
    split at hread
    · exact absurd hread (by simp)
    · next hne =>
        obtain rfl := Except.ok.inj hread
        obtain ⟨hnames, hpieces⟩ := lists_names list
        exact ⟨rfl, hne, hnames, hpieces,
          read_listOnly_of_lists (lists_intercalate hnames) hne⟩

end PromoterSettings
end Courier
