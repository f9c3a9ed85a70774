import GeoQuery.Json.Reader
import GeoQuery.Proofs.Json.Scan

/-!
Rows of items and members, as relations between a text, what is read from it and the rest. The folds
that read a row are the row: their rounds never run out, since every item takes a character.
-/

namespace GeoQuery.Json

open Outcome

variable {α σ ε : Type}

/-- A reader that takes at least one character. -/
def Progresses (read : Reader α) : Prop :=
  ∀ {text a rest}, read text = .ok (a, rest) → rest.length < text.length

/-- The items of an array up to its closing bracket, each read by `item`. -/
inductive ItemsRow (item : Reader α) : Bool → List Char → List α → List Char → Prop
  | nil {first : Bool} {text rest : List Char} (closed : skipBlanks text = ']' :: rest) :
      ItemsRow item first text [] rest
  | cons {first : Bool} {text front back rest : List Char} {a : α} {items : List α}
      (next : nextItem first text = .ok (true, front)) (read : item front = .ok (a, back))
      (tail : ItemsRow item false back items rest) : ItemsRow item first text (a :: items) rest

/-- The members of an object up to its closing brace, each value read by `value`. -/
inductive MembersRow (value : Reader α) :
    Bool → List Char → List (String × α) → List Char → Prop
  | nil {first : Bool} {text rest : List Char} (closed : skipBlanks text = '}' :: rest) :
      MembersRow value first text [] rest
  | cons {first : Bool} {text colon front back rest : List Char} {name : String} {a : α}
      {members : List (String × α)} (next : nextMember first text = .ok (some name, colon))
      (separated : scanColon colon = .ok front) (read : value front = .ok (a, back))
      (tail : MembersRow value false back members rest) :
      MembersRow value first text ((name, a) :: members) rest

theorem nextItem_length_le {first more : Bool} {text rest : List Char}
    (h : nextItem first text = .ok (more, rest)) : rest.length ≤ text.length := by
  have blanks := skipBlanks_length_le text
  unfold nextItem at h
  split at h
  · cases h
  · next r hr =>
      cases h
      rw [← hr]
      exact blanks
  · next c r hclose hr =>
      rw [hr] at blanks
      split at h
      · cases h
        exact blanks
      · split at h
        · have inner := skipBlanks_length_le r
          simp only [List.length_cons] at blanks
          split at h
          · cases h
          · cases h
          · next r' hend hclose' =>
              cases h
              omega
        · cases h

theorem scanName_length_le {text rest : List Char} {name : Option String}
    (h : scanName text = .ok (name, rest)) : rest.length < text.length := by
  obtain ⟨⟨s, back⟩, scanned, heq⟩ := map_eq_ok_iff.1 h
  cases heq
  exact scanString_length_lt scanned

theorem nextMember_length_le {first : Bool} {name : Option String} {text rest : List Char}
    (h : nextMember first text = .ok (name, rest)) : rest.length ≤ text.length := by
  have blanks := skipBlanks_length_le text
  unfold nextMember at h
  split at h
  · cases h
  · next r hr =>
      cases h
      rw [← hr]
      exact blanks
  · next c r hclose hr =>
      rw [hr] at blanks
      simp only [List.length_cons] at blanks
      split at h
      · split at h
        · have := scanName_length_le h
          omega
        · cases h
      · split at h
        · have inner := skipBlanks_length_le r
          split at h
          · cases h
          · cases h
          · next r' hr' =>
              rw [hr'] at inner
              simp only [List.length_cons] at inner
              have := scanName_length_le h
              omega
          · cases h
        · cases h

theorem scanColon_eq_ok_iff {text rest : List Char} :
    scanColon text = .ok rest ↔ skipBlanks text = ':' :: rest := by
  unfold scanColon
  split
  · next hb => simp [hb]
  · next hb => simp [hb]
  · next c r colon hb =>
      simp only [hb, List.cons.injEq, reduceCtorEq, false_iff, not_and]
      exact fun heq => absurd heq colon

theorem endArray_eq_ok_iff {text rest : List Char} :
    endArray text = .ok rest ↔ skipBlanks text = ']' :: rest := by
  unfold endArray
  split
  · next hb => simp [hb]
  · next hb => simp [hb]
  · next hb => split <;> simp [hb]
  · next c r close comma hb =>
      simp only [hb, List.cons.injEq, reduceCtorEq, false_iff, not_and]
      exact fun heq => absurd heq close

theorem endObject_eq_ok_iff {text rest : List Char} :
    endObject text = .ok rest ↔ skipBlanks text = '}' :: rest := by
  unfold endObject
  split
  · next hb => simp [hb]
  · next hb => simp [hb]
  · next hb => simp [hb]
  · next c r close comma hb =>
      simp only [hb, List.cons.injEq, reduceCtorEq, false_iff, not_and]
      exact fun heq => absurd heq close

theorem nextItem_false_iff {first : Bool} {text close : List Char} :
    nextItem first text = .ok (false, close) ↔
      ∃ rest, skipBlanks text = ']' :: rest ∧ close = ']' :: rest := by
  constructor
  · intro h
    unfold nextItem at h
    split at h
    · cases h
    · next hb =>
        cases h
        exact ⟨_, hb, rfl⟩
    · split at h
      · cases h
      · split at h
        · split at h <;> cases h
        · cases h
  · intro h
    obtain ⟨rest, hb, rfl⟩ := h
    rw [nextItem, hb]
    rfl

theorem nextMember_none_iff {first : Bool} {text close : List Char} :
    nextMember first text = .ok (none, close) ↔
      ∃ rest, skipBlanks text = '}' :: rest ∧ close = '}' :: rest := by
  have named {text close : List Char} : scanName text ≠ .ok (none, close) := by
    intro h
    obtain ⟨pair, -, heq⟩ := map_eq_ok_iff.1 h
    cases heq
  constructor
  · intro h
    unfold nextMember at h
    split at h
    · cases h
    · next hb =>
        cases h
        exact ⟨_, hb, rfl⟩
    · split at h
      · split at h
        · exact absurd h named
        · cases h
      · split at h
        · split at h
          · cases h
          · cases h
          · exact absurd h named
          · cases h
        · cases h
  · intro h
    obtain ⟨rest, hb, rfl⟩ := h
    rw [nextMember, hb]
    rfl

theorem length_lt_of_skipBlanks {text rest : List Char} {c : Char}
    (h : skipBlanks text = c :: rest) : rest.length < text.length := by
  have blanks := skipBlanks_length_le text
  rw [h] at blanks
  exact blanks

section Items

variable {item : Reader α}

theorem ItemsRow.length_le (progress : Progresses item) {first : Bool} {text rest : List Char}
    {items : List α} (row : ItemsRow item first text items rest) : items.length ≤ text.length := by
  induction row with
  | nil => exact Nat.zero_le _
  | cons next read tail ih =>
      have front := nextItem_length_le next
      have back := progress read
      simp only [List.length_cons]
      omega

theorem ItemsRow.rest_length_lt (progress : Progresses item) {first : Bool}
    {text rest : List Char} {items : List α} (row : ItemsRow item first text items rest) :
    rest.length < text.length := by
  induction row with
  | nil closed => exact length_lt_of_skipBlanks closed
  | cons next read tail ih =>
      have front := nextItem_length_le next
      have back := progress read
      omega

def pushItem (item : Reader α) (items : List α) : Reader (List α) :=
  fun text => (item text).map fun (a, rest) => (a :: items, rest)

theorem ItemsRow.of_foldItems {rounds : Nat} {first : Bool} {items all : List α}
    {text close rest : List Char}
    (fold : foldItems (pushItem item) rounds first items text = .ok (all, close))
    (closed : endArray close = .ok rest) :
    ∃ own, ItemsRow item first text own rest ∧ all = own.reverse ++ items := by
  induction rounds generalizing first items text with
  | zero => cases fold
  | succ rounds ih =>
      rw [foldItems] at fold
      split at fold
      · cases fold
      · next next =>
          cases fold
          obtain ⟨rest', hb, rfl⟩ := nextItem_false_iff.1 next
          cases endArray_eq_ok_iff.1 closed
          exact ⟨[], .nil hb, rfl⟩
      · next front next =>
          split at fold
          · cases fold
          · next state back step =>
              obtain ⟨⟨a, back'⟩, read, heq⟩ := map_eq_ok_iff.1 step
              cases heq
              obtain ⟨own, row, rfl⟩ := ih fold
              exact ⟨a :: own, .cons next read row, by simp⟩

theorem ItemsRow.foldItems_eq {first : Bool} {own : List α} {text rest : List Char}
    (row : ItemsRow item first text own rest) (items : List α) {rounds : Nat}
    (enough : own.length < rounds) :
    ∃ close, foldItems (pushItem item) rounds first items text =
      .ok (own.reverse ++ items, close) ∧ endArray close = .ok rest := by
  induction row generalizing items rounds with
  | nil closed =>
      obtain ⟨rounds, rfl⟩ := Nat.exists_eq_succ_of_ne_zero (Nat.ne_of_gt enough)
      exact ⟨_, by rw [foldItems, nextItem_false_iff.2 ⟨_, closed, rfl⟩]; rfl, rfl⟩
  | @cons first text front back rest a own next read tail ih =>
      obtain ⟨rounds, rfl⟩ := Nat.exists_eq_succ_of_ne_zero (Nat.ne_of_gt (Nat.zero_lt_of_lt enough))
      obtain ⟨close, fold, closed⟩ := ih (a :: items) (Nat.lt_of_succ_lt_succ enough)
      refine ⟨close, ?_, closed⟩
      have step : pushItem item items front = .ok (a :: items, back) := by
        simp [pushItem, read, Except.map]
      rw [foldItems, next]
      dsimp only
      rw [step]
      dsimp only
      rw [fold]
      simp

theorem withinArray_eq_ok_iff {inside : Reader α} {text rest : List Char} {a : α} :
    withinArray inside text = .ok (a, rest) ↔
      ∃ close, inside text = .ok (a, close) ∧ endArray close = .ok rest := by
  rw [withinArray, within]
  cases h : inside text with
  | error fault => simp
  | ok found =>
      obtain ⟨b, close⟩ := found
      simp [map_eq_ok_iff, and_comm]

theorem readItems_eq_ok_iff (progress : Progresses item) {first : Bool} {text rest : List Char}
    {items : List α} :
    (∃ close, readItems first item text = .ok (items, close) ∧ endArray close = .ok rest) ↔
      ItemsRow item first text items rest := by
  constructor
  · intro h
    obtain ⟨close, read, closed⟩ := h
    obtain ⟨⟨all, close'⟩, fold, heq⟩ := map_eq_ok_iff.1 read
    cases heq
    obtain ⟨own, row, rfl⟩ := ItemsRow.of_foldItems fold closed
    simpa using row
  · intro row
    obtain ⟨close, fold, closed⟩ :=
      row.foldItems_eq [] (Nat.lt_succ_of_le (row.length_le progress))
    refine ⟨close, map_eq_ok_iff.2 ⟨_, fold, by simp⟩, closed⟩

end Items

section Members

variable {value : Reader α}

theorem MembersRow.length_le (progress : Progresses value) {first : Bool} {text rest : List Char}
    {members : List (String × α)} (row : MembersRow value first text members rest) :
    members.length ≤ text.length := by
  induction row with
  | nil => exact Nat.zero_le _
  | cons next separated read tail ih =>
      have name := nextMember_length_le next
      have colon := length_lt_of_skipBlanks (scanColon_eq_ok_iff.1 separated)
      have back := progress read
      simp only [List.length_cons]
      omega

theorem MembersRow.rest_length_lt (progress : Progresses value) {first : Bool}
    {text rest : List Char} {members : List (String × α)}
    (row : MembersRow value first text members rest) : rest.length < text.length := by
  induction row with
  | nil closed => exact length_lt_of_skipBlanks closed
  | cons next separated read tail ih =>
      have name := nextMember_length_le next
      have colon := length_lt_of_skipBlanks (scanColon_eq_ok_iff.1 separated)
      have back := progress read
      omega

/-- A step that reads a value behind a colon and puts it, with its name, into a state. -/
def StepPuts (value : Reader α) (put : String → α → σ → Except ε σ)
    (step : String → σ → Reader σ) : Prop :=
  ∀ name state text state' rest, step name state text = .ok (state', rest) ↔
    ∃ front a, scanColon text = .ok front ∧ value front = .ok (a, rest) ∧
      put name a state = .ok state'

variable {put : String → α → σ → Except ε σ} {step : String → σ → Reader σ}

theorem MembersRow.of_foldMembers (puts : StepPuts value put step) {rounds : Nat} {first : Bool}
    {state final : σ} {text close rest : List Char}
    (fold : foldMembers step rounds first state text = .ok (final, close))
    (closed : endObject close = .ok rest) :
    ∃ members, MembersRow value first text members rest ∧
      members.foldlM (fun state m => put m.1 m.2 state) state = .ok final := by
  induction rounds generalizing first state text with
  | zero => cases fold
  | succ rounds ih =>
      rw [foldMembers] at fold
      split at fold
      · cases fold
      · next next =>
          cases fold
          obtain ⟨rest', hb, rfl⟩ := nextMember_none_iff.1 next
          cases endObject_eq_ok_iff.1 closed
          exact ⟨[], .nil hb, rfl⟩
      · next name colon next =>
          split at fold
          · cases fold
          · next state' back taken =>
              obtain ⟨front, a, separated, read, stored⟩ := (puts ..).1 taken
              obtain ⟨members, row, all⟩ := ih fold
              refine ⟨(name, a) :: members, .cons next separated read row, ?_⟩
              rw [List.foldlM_cons]
              exact bind_eq_ok_iff.2 ⟨state', stored, all⟩

theorem MembersRow.foldMembers_eq (puts : StepPuts value put step) {first : Bool}
    {state final : σ} {members : List (String × α)} {text rest : List Char}
    (row : MembersRow value first text members rest)
    (all : members.foldlM (fun state m => put m.1 m.2 state) state = .ok final)
    {rounds : Nat} (enough : members.length < rounds) :
    ∃ close, foldMembers step rounds first state text = .ok (final, close) ∧
      endObject close = .ok rest := by
  induction row generalizing state rounds with
  | nil closed =>
      obtain ⟨rounds, rfl⟩ := Nat.exists_eq_succ_of_ne_zero (Nat.ne_of_gt enough)
      cases all
      exact ⟨_, by rw [foldMembers, nextMember_none_iff.2 ⟨_, closed, rfl⟩], rfl⟩
  | @cons first text colon front back rest name a members next separated read tail ih =>
      obtain ⟨rounds, rfl⟩ := Nat.exists_eq_succ_of_ne_zero (Nat.ne_of_gt (Nat.zero_lt_of_lt enough))
      rw [List.foldlM_cons] at all
      obtain ⟨state', stored, all⟩ := bind_eq_ok_iff.1 all
      obtain ⟨close, fold, closed⟩ := ih all (Nat.lt_of_succ_lt_succ enough)
      have taken : step name state colon = .ok (state', back) :=
        (puts ..).2 ⟨front, a, separated, read, stored⟩
      refine ⟨close, ?_, closed⟩
      rw [foldMembers, next]
      dsimp only
      rw [taken]
      exact fold

theorem withinObject_eq_ok_iff {inside : Reader α} {text rest : List Char} {a : α} :
    withinObject inside text = .ok (a, rest) ↔
      ∃ close, inside text = .ok (a, close) ∧ endObject close = .ok rest := by
  rw [withinObject, within]
  cases h : inside text with
  | error fault => simp
  | ok found =>
      obtain ⟨b, close⟩ := found
      simp [map_eq_ok_iff, and_comm]

theorem readMembers_eq_ok_iff (progress : Progresses value) (puts : StepPuts value put step)
    (state final : σ) (text rest : List Char) :
    (∃ close, readMembers step state text = .ok (final, close) ∧ endObject close = .ok rest) ↔
      ∃ members, MembersRow value true text members rest ∧
        members.foldlM (fun state m => put m.1 m.2 state) state = .ok final := by
  constructor
  · intro h
    obtain ⟨close, fold, closed⟩ := h
    exact MembersRow.of_foldMembers puts fold closed
  · intro h
    obtain ⟨members, row, all⟩ := h
    exact row.foldMembers_eq puts all (Nat.lt_succ_of_le (row.length_le progress))

end Members

theorem member_puts (value : Reader Json) :
    StepPuts value (fun name a members => (.ok ((name, a) :: members) : Except Unit _))
      (readWith.member value) := by
  intro name members text members' rest
  rw [readWith.member]
  cases scanColon text with
  | error fault => simp
  | ok front =>
      simp only [map_eq_ok_iff, Except.ok.injEq, Prod.exists, Prod.mk.injEq]
      constructor
      · intro h
        obtain ⟨a, rest', read, rfl, rfl⟩ := h
        exact ⟨front, a, rfl, read, rfl⟩
      · intro h
        obtain ⟨front', a, rfl, read, rfl⟩ := h
        exact ⟨a, rest, read, rfl, rfl⟩

theorem foldlM_push (members state : List (String × Json)) :
    members.foldlM (fun state m => (.ok ((m.1, m.2) :: state) : Except Unit _)) state =
      .ok (members.reverse ++ state) := by
  induction members generalizing state with
  | nil => rfl
  | cons m members ih =>
      rw [List.foldlM_cons]
      exact (ih (m :: state)).trans (by simp)

theorem read_leaf {depth : Nat} {text rest : List Char} {l : Leaf}
    (found : scanFound text = .ok (.leaf l, rest)) : read depth text = .ok (.leaf l, rest) := by
  cases depth <;> simp [read, readWith, found]

theorem read_fault {depth : Nat} {text : List Char} {fault : Fault}
    (found : scanFound text = .error fault) : read depth text = .error fault := by
  cases depth <;> simp [read, readWith, found]

theorem readMembers_member_eq_ok_iff {value : Reader Json} (progress : Progresses value)
    {text rest : List Char} {reversed : List (String × Json)} :
    withinObject (readMembers (readWith.member value) []) text = .ok (reversed, rest) ↔
      MembersRow value true text reversed.reverse rest := by
  rw [withinObject_eq_ok_iff, readMembers_eq_ok_iff progress (member_puts value)]
  simp only [foldlM_push, Except.ok.injEq, List.append_nil]
  constructor
  · intro h
    obtain ⟨members, row, rfl⟩ := h
    rwa [List.reverse_reverse]
  · intro row
    exact ⟨_, row, List.reverse_reverse _⟩

theorem read_succ_array {depth : Nat} {text front rest : List Char} {j : Json}
    (progress : Progresses (read depth)) (found : scanFound text = .ok (.array, front)) :
    read (depth + 1) text = .ok (j, rest) ↔
      ∃ items, ItemsRow (read depth) true front.tail items rest ∧ j = .array items := by
  simp only [read, readWith, found, map_eq_ok_iff, Prod.exists, Prod.mk.injEq,
    withinArray_eq_ok_iff, readItems_eq_ok_iff progress]
  constructor
  · intro h
    obtain ⟨items, rest', row, rfl, rfl⟩ := h
    exact ⟨items, row, rfl⟩
  · intro h
    obtain ⟨items, row, rfl⟩ := h
    exact ⟨items, rest, row, rfl, rfl⟩

theorem read_succ_object {depth : Nat} {text front rest : List Char} {j : Json}
    (progress : Progresses (read depth)) (found : scanFound text = .ok (.object, front)) :
    read (depth + 1) text = .ok (j, rest) ↔
      ∃ members, MembersRow (read depth) true front.tail members rest ∧ j = .object members := by
  simp only [read, readWith, found, map_eq_ok_iff, Prod.exists, Prod.mk.injEq,
    readMembers_member_eq_ok_iff progress]
  constructor
  · intro h
    obtain ⟨reversed, rest', row, rfl, rfl⟩ := h
    exact ⟨reversed.reverse, row, rfl⟩
  · intro h
    obtain ⟨members, row, rfl⟩ := h
    exact ⟨members.reverse, rest, by rwa [List.reverse_reverse], by rw [List.reverse_reverse], rfl⟩

theorem read_zero_bracket {text front : List Char} {found : Found}
    (hfound : scanFound text = .ok (found, front)) (bracket : ∀ l, found ≠ .leaf l) :
    read 0 text = .error (.looking front .tooDeep) := by
  cases found with
  | leaf l => exact absurd rfl (bracket l)
  | array | object => simp [read, readWith, hfound]

theorem read_progresses (depth : Nat) : Progresses (read depth) := by
  -- The same for every depth, but for what stands inside of brackets.
  have step (depth : Nat) {text rest : List Char} {j : Json}
      (brackets : ∀ front found, scanFound text = .ok (found, front) → (∀ l, found ≠ .leaf l) →
        read depth text = .ok (j, rest) → rest.length < front.tail.length)
      (h : read depth text = .ok (j, rest)) : rest.length < text.length := by
    cases found : scanFound text with
    | error fault =>
        rw [read_fault found] at h
        cases h
    | ok pair =>
        obtain ⟨f, front⟩ := pair
        cases f with
        | leaf l =>
            rw [read_leaf found] at h
            cases h
            exact scanFound_length_lt found
        | array | object =>
            have inside := brackets front _ found (fun l => Found.noConfusion) h
            have tail : front.tail.length ≤ front.length := by simp
            exact Nat.lt_of_lt_of_le inside (Nat.le_trans tail (scanFound_length_le found))
  induction depth with
  | zero =>
      intro text j rest h
      refine step 0 (fun front found hfound bracket h => ?_) h
      rw [read_zero_bracket hfound bracket] at h
      cases h
  | succ depth ih =>
      intro text j rest h
      refine step (depth + 1) (fun front found hfound bracket h => ?_) h
      cases found with
      | leaf l => exact absurd rfl (bracket l)
      | array =>
          obtain ⟨items, row, -⟩ := (read_succ_array ih hfound).1 h
          exact row.rest_length_lt ih
      | object =>
          obtain ⟨members, row, -⟩ := (read_succ_object ih hfound).1 h
          exact row.rest_length_lt ih

theorem read_array_iff {depth : Nat} {text front rest : List Char} {j : Json}
    (found : scanFound text = .ok (.array, front)) :
    read depth text = .ok (j, rest) ↔
      ∃ inner items, depth = inner + 1 ∧ ItemsRow (read inner) true front.tail items rest ∧
        j = .array items := by
  cases depth with
  | zero => simp [read_zero_bracket found]
  | succ depth => simp [read_succ_array (read_progresses depth) found]

theorem read_object_iff {depth : Nat} {text front rest : List Char} {j : Json}
    (found : scanFound text = .ok (.object, front)) :
    read depth text = .ok (j, rest) ↔
      ∃ inner members, depth = inner + 1 ∧
        MembersRow (read inner) true front.tail members rest ∧ j = .object members := by
  cases depth with
  | zero => simp [read_zero_bracket found]
  | succ depth => simp [read_succ_object (read_progresses depth) found]

section Mono

variable {value value' : Reader Json}

theorem ItemsRow.mono (more : ∀ text j rest, value text = .ok (j, rest) → value' text = .ok (j, rest))
    {first : Bool} {text rest : List Char} {items : List Json}
    (row : ItemsRow value first text items rest) : ItemsRow value' first text items rest := by
  induction row with
  | nil closed => exact .nil closed
  | cons next read tail ih => exact .cons next (more _ _ _ read) ih

theorem MembersRow.mono
    (more : ∀ text j rest, value text = .ok (j, rest) → value' text = .ok (j, rest)) {first : Bool}
    {text rest : List Char} {members : List (String × Json)}
    (row : MembersRow value first text members rest) : MembersRow value' first text members rest := by
  induction row with
  | nil closed => exact .nil closed
  | cons next separated read tail ih => exact .cons next separated (more _ _ _ read) ih

end Mono

/-- A value that is read with some brackets open at most is read with more. -/
theorem read_mono {depth depth' : Nat} (deeper : depth ≤ depth') {text rest : List Char} {j : Json}
    (h : read depth text = .ok (j, rest)) : read depth' text = .ok (j, rest) := by
  induction depth using Nat.strongRecOn generalizing depth' text j rest with
  | ind depth ih =>
      cases found : scanFound text with
      | error fault =>
          rw [read_fault found] at h
          cases h
      | ok pair =>
          obtain ⟨f, front⟩ := pair
          cases f with
          | leaf l =>
              rw [read_leaf found] at h ⊢
              exact h
          | array =>
              obtain ⟨inner, items, rfl, row, rfl⟩ := (read_array_iff found).1 h
              obtain ⟨inner', rfl⟩ := Nat.exists_eq_add_one_of_ne_zero (show depth' ≠ 0 by omega)
              have shallow : inner ≤ inner' := by omega
              have more := row.mono fun _ _ _ => ih inner (Nat.lt_succ_self inner) shallow
              exact (read_array_iff found).2 ⟨inner', items, rfl, more, rfl⟩
          | object =>
              obtain ⟨inner, members, rfl, row, rfl⟩ := (read_object_iff found).1 h
              obtain ⟨inner', rfl⟩ := Nat.exists_eq_add_one_of_ne_zero (show depth' ≠ 0 by omega)
              have shallow : inner ≤ inner' := by omega
              have more := row.mono fun _ _ _ => ih inner (Nat.lt_succ_self inner) shallow
              exact (read_object_iff found).2 ⟨inner', members, rfl, more, rfl⟩

theorem found_of_read {depth : Nat} {text rest : List Char} {j : Json}
    (h : read depth text = .ok (j, rest)) :
    ∃ front, scanFound text = .ok (j.found, front) ∧ ∀ l, j = .leaf l → front = rest := by
  cases scanned : scanFound text with
  | error fault =>
      rw [read_fault scanned] at h
      cases h
  | ok pair =>
      obtain ⟨f, front⟩ := pair
      cases f with
      | leaf l =>
          rw [read_leaf scanned] at h
          cases h
          exact ⟨_, rfl, fun _ _ => rfl⟩
      | array =>
          obtain ⟨inner, items, -, -, rfl⟩ := (read_array_iff scanned).1 h
          exact ⟨front, rfl, fun l heq => nomatch heq⟩
      | object =>
          obtain ⟨inner, members, -, -, rfl⟩ := (read_object_iff scanned).1 h
          exact ⟨front, rfl, fun l heq => nomatch heq⟩

theorem leaf_of_read {depth : Nat} {text inside rest : List Char} {c : Char} {j : Json}
    (hb : skipBlanks text = c :: inside) (noBracket : c ∉ ['[', '{'])
    (h : read depth text = .ok (j, rest)) :
    ∃ l, j = .leaf l ∧ Begins (c :: inside) (.leaf l) rest := by
  obtain ⟨front, scanned, same⟩ := found_of_read h
  have begins := begins_of_scanFound scanned
  rw [hb] at begins
  cases j with
  | leaf l =>
      rw [same l rfl] at begins
      exact ⟨l, rfl, begins⟩
  | array items =>
      cases begins
      exact absurd (List.mem_cons_self ..) noBracket
  | object members =>
      cases begins
      exact absurd (List.mem_cons_of_mem _ (List.mem_cons_self ..)) noBracket

theorem read_text_iff {depth : Nat} {text inside rest : List Char} {j : Json}
    (hb : skipBlanks text = '"' :: inside) :
    read depth text = .ok (j, rest) ↔
      ∃ s, scanString [] inside = .ok (s, rest) ∧ j = .leaf (.text s) := by
  constructor
  · intro h
    obtain ⟨l, rfl, begins⟩ := leaf_of_read hb (by decide) h
    cases begins with
    | text scanned => exact ⟨_, scanned, rfl⟩
    | boolean other => exact absurd other (by decide)
    | number other => exact absurd other (by decide)
  · intro h
    obtain ⟨s, scanned, rfl⟩ := h
    exact read_leaf (scanFound_text_iff.2 ⟨inside, hb, scanned⟩)

theorem read_null_iff {depth : Nat} {text inside rest : List Char} {j : Json}
    (hb : skipBlanks text = 'n' :: inside) :
    read depth text = .ok (j, rest) ↔
      scanKeyword ['u', 'l', 'l'] inside = .ok rest ∧ j = .leaf .null := by
  constructor
  · intro h
    obtain ⟨l, rfl, begins⟩ := leaf_of_read hb (by decide) h
    cases begins with
    | null scanned => exact ⟨scanned, rfl⟩
    | boolean other => exact absurd other (by decide)
    | number other => exact absurd other (by decide)
  · intro h
    obtain ⟨scanned, rfl⟩ := h
    exact read_leaf (scanFound_null_iff.2 ⟨inside, hb, scanned⟩)

theorem readWhole_eq_ok_iff {α : Type} {reader : Reader α} {text : String} {a : α} :
    readWhole reader text = .ok a ↔
      ∃ rest, reader text.toList = .ok (a, rest) ∧ skipBlanks rest = [] := by
  unfold readWhole
  cases reader text.toList with
  | error fault => simp
  | ok pair =>
      obtain ⟨b, rest⟩ := pair
      cases hb : skipBlanks rest with
      | nil => simp [hb]
      | cons c inside => simp [hb]

end GeoQuery.Json
