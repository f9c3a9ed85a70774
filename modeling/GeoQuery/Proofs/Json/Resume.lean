import GeoQuery.Proofs.Json.Cut
import GeoQuery.Proofs.Json.Rows

/-!
Every reader of JSON values goes on as it began when more text follows. A reader that is made of
others does so because they do; the readers that look at a character look behind blanks first, and
find nothing but the end of the text where there are only blanks.
-/

namespace GeoQuery.Json

open Outcome

variable {α β σ : Type}

theorem ne_quote_of_isBlank {c : Char} (h : isBlank c = true) : c ≠ '"' := by
  rintro rfl
  exact absurd h (by decide)

theorem Continues.bind {more : List Char} {x y : Except Fault (α × List Char)}
    {f f' : α × List Char → Except Fault (β × List Char)} (h : Continues more x y)
    (next : ∀ a rest, x = .ok (a, rest) → Continues more (f (a, rest)) (f' (a, rest ++ more))) :
    Continues more (x >>= f) (y >>= f') := by
  cases x with
  | error fault =>
      refine Or.imp id ?_ h
      rintro ⟨fault', rfl⟩
      exact ⟨fault', rfl⟩
  | ok pair =>
      obtain ⟨a, rest⟩ := pair
      rw [show y = .ok (a, rest ++ more) from h]
      exact next a rest rfl

theorem not_meetNumeric_of_append {front text more : List Char}
    (closed : Quoting.outside.behind front = .outside) (h : ¬ MeetNumeric (front ++ text) more) :
    ¬ MeetNumeric text more := fun cut => h (cut.append closed)

namespace ResumesAt

variable {reader reader' : Reader α} {text : List Char}

theorem congr (same : ∀ more, reader (text ++ more) = reader' (text ++ more))
    (h : ResumesAt reader' text) : ResumesAt reader text := by
  have own : reader text = reader' text := by simpa using same []
  refine ⟨fun read => h.taken (own ▸ read), fun more apart => ?_⟩
  rw [own, same]
  exact h.goesOn more apart

theorem ended {fault : Fault} (own : reader text = .error fault)
    (unfinished : fault.cause.category = .unfinished) : ResumesAt reader text := by
  refine ⟨fun read => ?_, fun more _ => ?_⟩
  · rw [own] at read
    cases read
  · rw [own]
    exact .inl unfinished

theorem refuse (always : ∀ more, ∃ fault, reader (text ++ more) = .error fault) :
    ResumesAt reader text := by
  obtain ⟨fault, own⟩ := always []
  rw [List.append_nil] at own
  refine ⟨fun read => ?_, fun more _ => ?_⟩
  · rw [own] at read
    cases read
  · rw [own]
    exact .inr (always more)

theorem cons {c : Char} {rest : List Char} (other : c ≠ '"')
    (same : ∀ rest, reader (c :: rest) = reader' rest) (h : ResumesAt reader' rest) :
    ResumesAt reader (c :: rest) := by
  have step : Quoting.outside.behind [c] = .outside := by simp [Quoting.next, other]
  refine ⟨fun read => ?_, fun more apart => ?_⟩
  · rw [same] at read
    obtain ⟨front, rfl, closed⟩ := h.taken read
    exact ⟨c :: front, rfl, by rw [Quoting.behind_cons, Quoting.next, if_neg other, closed]⟩
  · rw [List.cons_append, same, same]
    exact h.goesOn more (not_meetNumeric_of_append step apart)

theorem bind {next : α × List Char → Except Fault (β × List Char)} (h : ResumesAt reader text)
    (h' : ∀ a rest, reader text = .ok (a, rest) → ResumesAt (fun rest => next (a, rest)) rest) :
    ResumesAt (fun text => reader text >>= next) text := by
  refine ⟨fun read => ?_, fun more apart => (h.goesOn more apart).bind fun a rest own => ?_⟩
  · obtain ⟨⟨a, middle⟩, first, second⟩ := bind_eq_ok_iff.1 read
    obtain ⟨front, rfl, closed⟩ := h.taken first
    obtain ⟨front', rfl, closed'⟩ := (h' a middle first).taken second
    exact ⟨front ++ front', (List.append_assoc ..).symm, by
      rw [Quoting.behind_append, closed, closed']⟩
  · obtain ⟨front, rfl, closed⟩ := h.taken own
    exact (h' a rest own).goesOn more (not_meetNumeric_of_append closed apart)

end ResumesAt

namespace Resumes

variable {reader reader' : Reader α}

theorem pure (a : α) : Resumes (fun text => .ok (a, text)) := by
  refine fun text => ⟨fun read => ?_, fun more _ => rfl⟩
  cases read
  exact ⟨[], rfl, rfl⟩

theorem refuse (always : ∀ text, ∃ fault, reader text = .error fault) : Resumes reader :=
  fun _ => .refuse fun _ => always _

theorem congr (same : ∀ text, reader text = reader' text) (h : Resumes reader') :
    Resumes reader := fun text => (h text).congr fun _ => same _

theorem bind {g : α × List Char → Except Fault (β × List Char)} (h : Resumes reader)
    (h' : ∀ a, Resumes fun rest => g (a, rest)) : Resumes (fun text => reader text >>= g) :=
  fun text => (h text).bind fun a rest _ => h' a rest

theorem map {f : α → β} (h : Resumes reader) :
    Resumes (fun text => (reader text).map fun (a, rest) => (f a, rest)) :=
  .congr (fun text => by cases reader text <;> rfl)
    (h.bind (g := fun (a, rest) => .ok (f a, rest)) fun a => .pure (f a))

theorem ofBlanks (blanks : ∀ text, reader (skipBlanks text) = reader text)
    (atEnd : ∃ fault, reader [] = .error fault ∧ fault.cause.category = .unfinished)
    (h : ∀ c rest, isBlank c = false → ResumesAt reader (c :: rest)) : Resumes reader := by
  intro text
  obtain ⟨front, split, blank⟩ := skipBlanks_split text
  have closed : Quoting.outside.behind front = .outside :=
    Quoting.outside_behind_of_no_quote fun c member => ne_quote_of_isBlank (blank c member)
  cases solid : skipBlanks text with
  | nil =>
      obtain ⟨fault, own, unfinished⟩ := atEnd
      rw [← solid, blanks] at own
      exact .ended own unfinished
  | cons c rest =>
      rw [solid] at split
      have resumes := h c rest (solid_of_skipBlanks solid)
      have own : reader text = reader (c :: rest) := by rw [← blanks text, solid]
      refine ⟨fun read => ?_, fun more apart => ?_⟩
      · rw [own] at read
        obtain ⟨front', rest', closed'⟩ := resumes.taken read
        exact ⟨front ++ front', by rw [split, rest', List.append_assoc], by
          rw [Quoting.behind_append, closed, closed']⟩
      · have longer : reader (text ++ more) = reader (c :: (rest ++ more)) := by
          rw [← blanks (text ++ more), skipBlanks_append solid]
        rw [own, longer]
        rw [split] at apart
        exact resumes.goesOn more (not_meetNumeric_of_append closed apart)

end Resumes

def past (scan : List Char → Except Fault (List Char)) : Reader Unit :=
  fun text => (scan text).map fun rest => ((), rest)

theorem Resumes.marking {scan : List Char → Except Fault (List Char)} (h : Resumes (past scan))
    (a : α) : Resumes fun text => (scan text).map fun rest => (a, rest) :=
  .congr (fun text => by
    rw [past]
    cases scan text <;> rfl) (h.map (f := fun _ => a))

theorem Resumes.behind {scan : List Char → Except Fault (List Char)} {reader : Reader α}
    (h : Resumes (past scan)) (h' : Resumes reader) :
    Resumes (fun text => scan text >>= reader) :=
  .congr (fun text => by
    unfold past
    cases scan text <;> rfl) (h.bind (g := fun (_, rest) => reader rest) fun _ => h')

theorem ResumesAt.string {reader : Reader α} {f : String → α}
    (same : ∀ rest, reader ('"' :: rest) =
      (scanString [] rest).map fun (s, back) => (f s, back)) (rest : List Char) :
    ResumesAt reader ('"' :: rest) := by
  refine ⟨fun read => ?_, fun more _ => ?_⟩
  · rw [same] at read
    obtain ⟨⟨s, back⟩, scanned, equal⟩ := map_eq_ok_iff.1 read
    cases equal
    obtain ⟨front, rfl, spelled⟩ := scanString_eq_ok_iff.1 scanned
    exact ⟨'"' :: front, rfl, spelled.closes⟩
  · rw [List.cons_append, same, same]
    have scanned := scanString_continues [] rest more
    cases own : scanString [] rest with
    | error fault =>
        rw [own] at scanned
        refine scanned.imp id ?_
        rintro ⟨fault', longer⟩
        exact ⟨fault', by rw [longer]; rfl⟩
    | ok pair =>
        rw [own] at scanned
        rw [show scanString [] (rest ++ more) = _ from scanned]
        rfl

theorem scanKeyword_resumes {word : List Char} (plain : ∀ c ∈ word, c ≠ '"') :
    Resumes (past (scanKeyword word)) := by
  induction word with
  | nil => exact .pure ()
  | cons k word ih =>
      obtain ⟨first, others⟩ := List.forall_mem_cons.1 plain
      intro text
      cases text with
      | nil => exact .ended rfl rfl
      | cons c rest =>
          by_cases same : c = k
          · subst same
            exact .cons first (fun rest => by simp [past, scanKeyword]) (ih others rest)
          · exact .refuse fun more => ⟨_, by simp [past, scanKeyword, same, Except.map]; rfl⟩

theorem past_resumes {scan : List Char → Except Fault (List Char)} {c : Char} (other : c ≠ '"')
    (takes : ∀ {text rest}, scan text = .ok rest ↔ skipBlanks text = c :: rest)
    (blanks : ∀ text, scan (skipBlanks text) = scan text)
    (atEnd : ∃ fault, scan [] = .error fault ∧ fault.cause.category = .unfinished) :
    Resumes (past scan) := by
  obtain ⟨fault, ended, unfinished⟩ := atEnd
  refine .ofBlanks (fun text => by rw [past, past, blanks])
    ⟨fault, by rw [past, ended]; rfl, unfinished⟩ fun d rest solid => ?_
  by_cases same : d = c
  · subst same
    refine .cons other (fun rest => ?_) (Resumes.pure () rest)
    rw [past, takes.2 (skipBlanks_cons solid rest)]
    rfl
  · refine .refuse fun more => ?_
    cases own : scan (d :: rest ++ more) with
    | error fault => exact ⟨fault, by rw [past, own]; rfl⟩
    | ok back =>
        have taken := takes.1 own
        rw [List.cons_append, skipBlanks_cons solid] at taken
        exact absurd (List.cons.inj taken).1 same

theorem scanColon_resumes : Resumes (past scanColon) :=
  past_resumes (by decide) scanColon_eq_ok_iff (fun text => by simp [scanColon]) ⟨_, rfl, rfl⟩

theorem endArray_resumes : Resumes (past endArray) :=
  past_resumes (by decide) endArray_eq_ok_iff (fun text => by simp [endArray]) ⟨_, rfl, rfl⟩

theorem endObject_resumes : Resumes (past endObject) :=
  past_resumes (by decide) endObject_eq_ok_iff (fun text => by simp [endObject]) ⟨_, rfl, rfl⟩

theorem scanFound_resumes : Resumes scanFound := by
  have bracket {c : Char} (found : Found) (other : c ≠ '"')
      (same : ∀ rest, scanFound (c :: rest) = .ok (found, c :: rest)) (rest : List Char) :
      ResumesAt scanFound (c :: rest) := by
    have takes : ResumesAt (fun text => .ok (found, text)) (c :: rest) := Resumes.pure found _
    refine takes.congr ?_
    exact fun more => same _
  have keyword {c : Char} {word : List Char} (l : Leaf) (plain : ∀ d ∈ c :: word, d ≠ '"')
      (same : ∀ rest, scanFound (c :: rest) =
        (scanKeyword word rest).map fun rest => (.leaf l, rest)) (rest : List Char) :
      ResumesAt scanFound (c :: rest) := by
    obtain ⟨first, others⟩ := List.forall_mem_cons.1 plain
    exact .cons first same ((scanKeyword_resumes others).marking (Found.leaf l) rest)
  -- The first character that is no blank decides which scanner goes on.
  refine .ofBlanks (fun text => by simp [scanFound]) ⟨_, rfl, rfl⟩ fun c rest solid => ?_
  by_cases open₁ : c = '['
  · subst open₁
    exact bracket .array (by decide) (fun _ => rfl) rest
  by_cases open₂ : c = '{'
  · subst open₂
    exact bracket .object (by decide) (fun _ => rfl) rest
  by_cases quote : c = '"'
  · subst quote
    exact .string (f := fun s => .leaf (.text s)) (fun _ => rfl) rest
  by_cases n : c = 'n'
  · subst n
    exact keyword .null (by simp) (fun _ => rfl) rest
  by_cases t : c = 't'
  · subst t
    exact keyword (.boolean true) (by simp) (fun _ => rfl) rest
  by_cases f : c = 'f'
  · subst f
    exact keyword (.boolean false) (by simp) (fun _ => rfl) rest
  by_cases minus : c = '-'
  · subst minus
    exact .cons (by decide) (fun _ => rfl)
      ((Numeral.read_resumes true).map (f := fun n => Found.leaf (.number n)) rest)
  by_cases digit : c.isDigit
  · refine .congr (fun more => ?_)
      ((Numeral.read_resumes false).map (f := fun n => Found.leaf (.number n)) (c :: rest))
    simp [scanFound, skipBlanks_cons solid, digit]
  · refine .refuse fun more => ⟨.looking (c :: (rest ++ more)) .expectedValue, ?_⟩
    simp [scanFound, skipBlanks_cons solid, digit]

def itemBehindComma : Reader Bool := fun text =>
  match skipBlanks text with
  | [] => .error (.atEnd .value)
  | ']' :: rest => .error (.looking (']' :: rest) .trailingComma)
  | rest => .ok (true, rest)

theorem itemBehindComma_resumes : Resumes itemBehindComma := by
  refine .ofBlanks (fun text => by simp [itemBehindComma]) ⟨_, rfl, rfl⟩ fun c rest solid => ?_
  by_cases bracket : c = ']'
  · subst bracket
    exact .refuse fun more => ⟨_, rfl⟩
  · refine .congr (fun more => ?_) (Resumes.pure true (c :: rest))
    simp [itemBehindComma, skipBlanks_cons solid, bracket]

theorem nextItem_resumes (first : Bool) : Resumes (nextItem first) := by
  refine .ofBlanks (fun text => by simp [nextItem]) ⟨_, rfl, rfl⟩ fun c rest solid => ?_
  by_cases bracket : c = ']'
  · subst bracket
    refine .congr (fun more => ?_) (Resumes.pure false (']' :: rest))
    rfl
  cases first with
  | true =>
      refine .congr (fun more => ?_) (Resumes.pure true (c :: rest))
      simp [nextItem, skipBlanks_cons solid]
  | false =>
      by_cases comma : c = ','
      · subst comma
        exact .cons (by decide) (fun _ => rfl) (itemBehindComma_resumes rest)
      · refine .refuse fun more => ⟨.looking (c :: (rest ++ more)) .expectedCommaOrBracket, ?_⟩
        simp [nextItem, skipBlanks_cons solid, comma]

def nameBehindComma : Reader (Option String) := fun text =>
  match skipBlanks text with
  | [] => .error (.atEnd .value)
  | '}' :: rest => .error (.looking ('}' :: rest) .trailingComma)
  | '"' :: rest => scanName rest
  | c :: rest => .error (.looking (c :: rest) .nameNotString)

theorem nameBehindComma_resumes : Resumes nameBehindComma := by
  refine .ofBlanks (fun text => by simp [nameBehindComma]) ⟨_, rfl, rfl⟩ fun c rest solid => ?_
  by_cases brace : c = '}'
  · subst brace
    exact .refuse fun more => ⟨_, rfl⟩
  by_cases quote : c = '"'
  · subst quote
    exact .string (f := some) (fun _ => rfl) rest
  · refine .refuse fun more => ⟨.looking (c :: (rest ++ more)) .nameNotString, ?_⟩
    simp [nameBehindComma, skipBlanks_cons solid]

theorem nextMember_resumes (first : Bool) : Resumes (nextMember first) := by
  refine .ofBlanks (fun text => by simp [nextMember]) ⟨_, rfl, rfl⟩ fun c rest solid => ?_
  by_cases brace : c = '}'
  · subst brace
    refine .congr (fun more => ?_) (Resumes.pure none ('}' :: rest))
    rfl
  cases first with
  | true =>
      by_cases quote : c = '"'
      · subst quote
        exact .string (f := some) (fun _ => rfl) rest
      · refine .refuse fun more => ⟨.looking (c :: (rest ++ more)) .nameNotString, ?_⟩
        simp [nextMember, skipBlanks_cons solid, quote]
  | false =>
      by_cases comma : c = ','
      · subst comma
        exact .cons (by decide) (fun _ => rfl) (nameBehindComma_resumes rest)
      · refine .refuse fun more => ⟨.looking (c :: (rest ++ more)) .expectedCommaOrBrace, ?_⟩
        simp [nextMember, skipBlanks_cons solid, comma]

theorem foldItems_succ (step : σ → Reader σ) (rounds : Nat) (first : Bool) (state : σ)
    (text : List Char) :
    foldItems step (rounds + 1) first state text =
      nextItem first text >>= fun (more, rest) =>
        if more then
          step state rest >>= fun (state, rest) => foldItems step rounds false state rest
        else .ok (state, rest) := by
  rw [foldItems]
  cases nextItem first text with
  | error fault => rfl
  | ok pair =>
      obtain ⟨more, rest⟩ := pair
      cases more with
      | false => rfl
      | true =>
          simp only [bind, Except.bind, if_true]
          cases step state rest <;> rfl

theorem foldMembers_succ (step : String → σ → Reader σ) (rounds : Nat) (first : Bool) (state : σ)
    (text : List Char) :
    foldMembers step (rounds + 1) first state text =
      nextMember first text >>= fun (name, rest) =>
        match name with
        | none => .ok (state, rest)
        | some name =>
          step name state rest >>= fun (state, rest) =>
            foldMembers step rounds false state rest := by
  rw [foldMembers]
  cases nextMember first text with
  | error fault => rfl
  | ok pair =>
      obtain ⟨name, rest⟩ := pair
      cases name with
      | none => rfl
      | some name =>
          simp only [bind, Except.bind]
          cases step name state rest <;> rfl

theorem foldItems_resumes {step : σ → Reader σ} (h : ∀ state, Resumes (step state))
    (rounds : Nat) (first : Bool) (state : σ) : Resumes (foldItems step rounds first state) := by
  induction rounds generalizing first state with
  | zero => exact .refuse fun _ => ⟨_, rfl⟩
  | succ rounds ih =>
      refine .congr (foldItems_succ step rounds first state)
        ((nextItem_resumes first).bind fun found => ?_)
      cases found with
      | false => exact .pure state
      | true => exact (h state).bind fun state' => ih false state'

theorem foldMembers_resumes {step : String → σ → Reader σ}
    (h : ∀ name state, Resumes (step name state)) (rounds : Nat) (first : Bool) (state : σ) :
    Resumes (foldMembers step rounds first state) := by
  induction rounds generalizing first state with
  | zero => exact .refuse fun _ => ⟨_, rfl⟩
  | succ rounds ih =>
      refine .congr (foldMembers_succ step rounds first state)
        ((nextMember_resumes first).bind fun found => ?_)
      cases found with
      | none => exact .pure state
      | some name => exact (h name state).bind fun state' => ih false state'

section Rounds

variable {rounds rounds' : Nat} {text more : List Char}

/-- A longer text has more rounds. A fold that has run out of rounds counts as unfinished. -/
theorem foldItems_continues {step : σ → Reader σ} (h : ∀ state, Resumes (step state))
    (enough : rounds ≤ rounds') (first : Bool) (state : σ) (apart : ¬ MeetNumeric text more) :
    Continues more (foldItems step rounds first state text)
      (foldItems step rounds' first state (text ++ more)) := by
  induction rounds generalizing rounds' first state text with
  | zero => exact .inl rfl
  | succ rounds ih =>
      obtain ⟨rounds', rfl⟩ := Nat.exists_eq_succ_of_ne_zero (Nat.ne_of_gt (Nat.zero_lt_of_lt enough))
      rw [foldItems_succ, foldItems_succ]
      have next := nextItem_resumes first text
      refine (next.goesOn more apart).bind fun found rest hnext => ?_
      obtain ⟨front, rfl, closed⟩ := next.taken hnext
      have apart := not_meetNumeric_of_append closed apart
      cases found with
      | false => rfl
      | true =>
          refine ((h state rest).goesOn more apart).bind fun state' back item => ?_
          obtain ⟨front', rfl, closed'⟩ := (h state rest).taken item
          exact ih (Nat.le_of_succ_le_succ enough) false state'
            (not_meetNumeric_of_append closed' apart)

theorem foldMembers_continues {step : String → σ → Reader σ}
    (h : ∀ name state, Resumes (step name state)) (enough : rounds ≤ rounds') (first : Bool)
    (state : σ) (apart : ¬ MeetNumeric text more) :
    Continues more (foldMembers step rounds first state text)
      (foldMembers step rounds' first state (text ++ more)) := by
  induction rounds generalizing rounds' first state text with
  | zero => exact .inl rfl
  | succ rounds ih =>
      obtain ⟨rounds', rfl⟩ := Nat.exists_eq_succ_of_ne_zero (Nat.ne_of_gt (Nat.zero_lt_of_lt enough))
      rw [foldMembers_succ, foldMembers_succ]
      have next := nextMember_resumes first text
      refine (next.goesOn more apart).bind fun found rest hnext => ?_
      obtain ⟨front, rfl, closed⟩ := next.taken hnext
      have apart := not_meetNumeric_of_append closed apart
      cases found with
      | none => rfl
      | some name =>
          refine ((h name state rest).goesOn more apart).bind fun state' back value => ?_
          obtain ⟨front', rfl, closed'⟩ := (h name state rest).taken value
          exact ih (Nat.le_of_succ_le_succ enough) false state'
            (not_meetNumeric_of_append closed' apart)

end Rounds

theorem readItems_resumes {item : Reader α} (h : Resumes item) (first : Bool) :
    Resumes (readItems first item) := by
  have push (items : List α) : Resumes (pushItem item items) :=
    h.map (f := fun a => a :: items)
  have fold : Resumes fun text => foldItems (pushItem item) (text.length + 1) first [] text :=
    fun text => ⟨(foldItems_resumes push _ first [] text).taken, fun more =>
      foldItems_continues push (by simp) first []⟩
  exact fold.map

theorem readMembers_resumes {step : String → σ → Reader σ}
    (h : ∀ name state, Resumes (step name state)) (state : σ) : Resumes (readMembers step state) :=
  fun text => ⟨(foldMembers_resumes h _ true state text).taken, fun more =>
    foldMembers_continues h (by simp) true state⟩

theorem category_settle (fault : Fault) (leave : List Char → List Char) :
    (fault.settle leave).cause.category = fault.cause.category := by
  cases fault <;> rfl

theorem within_resumes {finish : List Char → Except Fault (List Char)} {inside : Reader α}
    (leave : List Char → List Char) (h : Resumes inside) (closing : Resumes (past finish)) :
    Resumes (within finish leave inside) := by
  have settled : Resumes fun text => (inside text).mapError (Fault.settle leave) := by
    refine fun text => ⟨fun read => ?_, fun more apart => ?_⟩
    · exact (h text).taken (mapError_eq_ok_iff.1 read)
    · have goesOn := (h text).goesOn more apart
      cases own : inside text with
      | ok pair =>
          rw [own] at goesOn
          rw [show inside (text ++ more) = _ from goesOn]
          rfl
      | error fault =>
          rw [own] at goesOn
          refine goesOn.imp (fun unfinished => ?_) ?_
          · rw [category_settle, unfinished]
          · rintro ⟨fault', longer⟩
            exact ⟨fault'.settle leave, by rw [longer]; rfl⟩
  refine .congr (fun text => ?_)
    (settled.bind (g := fun (value, rest) => (finish rest).map fun rest => (value, rest))
      fun value => closing.marking value)
  rw [within]
  cases inside text <;> rfl

theorem withinArray_resumes {inside : Reader α} (h : Resumes inside) :
    Resumes (withinArray inside) := within_resumes _ h endArray_resumes

theorem withinObject_resumes {inside : Reader α} (h : Resumes inside) :
    Resumes (withinObject inside) := within_resumes _ h endObject_resumes

theorem Resumes.behindFound {next : Found × List Char → Except Fault (α × List Char)}
    (leaf : ∀ l, Resumes fun rest => next (.leaf l, rest))
    (array : ∀ inside, ResumesAt (fun rest => next (.array, rest)) ('[' :: inside))
    (object : ∀ inside, ResumesAt (fun rest => next (.object, rest)) ('{' :: inside)) :
    Resumes fun text => scanFound text >>= next := by
  refine fun text => (scanFound_resumes text).bind fun found rest scanned => ?_
  cases found with
  | leaf l => exact leaf l rest
  | array =>
      obtain ⟨inside, -, rfl⟩ := scanFound_array_iff.1 scanned
      exact array inside
  | object =>
      obtain ⟨inside, -, rfl⟩ := scanFound_object_iff.1 scanned
      exact object inside

theorem member_resumes {value : Reader Json} (h : Resumes value) (name : String)
    (members : List (String × Json)) : Resumes (readWith.member value name members) := by
  refine .congr (fun text => ?_)
    (scanColon_resumes.behind (h.map (f := fun v => (name, v) :: members)))
  rw [readWith.member]
  cases scanColon text <;> rfl

/-- What a value is read on as, by what is found at its front. -/
def readBehind (nested : Option (Reader Json)) :
    Found × List Char → Except Fault (Json × List Char)
  | (.leaf l, rest) => .ok (.leaf l, rest)
  | (.array, rest) =>
      match nested with
      | none => .error (.looking rest .tooDeep)
      | some item => (withinArray (readItems true item) rest.tail).map fun (items, rest) =>
          (.array items, rest)
  | (.object, rest) =>
      match nested with
      | none => .error (.looking rest .tooDeep)
      | some value => (withinObject (readMembers (readWith.member value) []) rest.tail).map
          fun (members, rest) => (.object members.reverse, rest)

theorem readWith_eq_bind (nested : Option (Reader Json)) (text : List Char) :
    readWith nested text = scanFound text >>= readBehind nested := by
  rw [readWith]
  cases scanFound text with
  | error fault => rfl
  | ok pair =>
      obtain ⟨found, rest⟩ := pair
      cases found <;> cases nested <;> rfl

theorem readWith_resumes {nested : Option (Reader Json)} (h : ∀ value ∈ nested, Resumes value) :
    Resumes (readWith nested) := by
  refine .congr (readWith_eq_bind nested) ?_
  cases nested with
  | none =>
      refine .behindFound (fun l => .pure _) (fun inside => ?_) fun inside => ?_
      · exact .refuse fun _ => ⟨_, rfl⟩
      · exact .refuse fun _ => ⟨_, rfl⟩
  | some value =>
      have resumes := h value rfl
      have array := (withinArray_resumes (readItems_resumes resumes true)).map (f := Json.array)
      have object := (withinObject_resumes (readMembers_resumes (member_resumes resumes) [])).map
        (f := fun members => Json.object members.reverse)
      refine .behindFound (fun l => .pure _) (fun inside => ?_) fun inside => ?_
      · exact .cons (by decide) (fun _ => rfl) (array inside)
      · exact .cons (by decide) (fun _ => rfl) (object inside)

theorem read_resumes (depth : Nat) : Resumes (read depth) := by
  induction depth with
  | zero => exact readWith_resumes nofun
  | succ depth ih => exact readWith_resumes fun value member => Option.mem_some.1 member ▸ ih

end GeoQuery.Json
