import GeoQuery.Fence
import GeoQuery.Proofs.Command.Groups
import GeoQuery.Search
import GeoQuery.Write
import Std.Data.String.ToNat

namespace GeoQuery

open Command

namespace Argument

@[simp] theorem token_word (text : String) : token (.word text) = text := rfl

@[simp] theorem token_number (clause : String) (x : Binary64) :
    token (.number clause x) = x.token := rfl

@[simp] theorem token_nat (n : Nat) : token (nat n) = toString n := rfl

@[simp] theorem map_token_numbers (clause : String) (values : List Binary64) :
    (numbers clause values).map token = values.map Binary64.token := by
  simp [numbers, Function.comp_def]

theorem map_token_flag (text : String) (b : Bool) :
    (if b then [word text] else []).map token = if b then [text] else [] := by
  cases b <;> rfl

theorem map_token_count (text : String) (o : Option UInt64) :
    (o.elim [] fun n => [word text, nat n.toNat]).map token =
      o.elim [] fun n => text :: [toString n.toNat] := by
  cases o <;> rfl

end Argument

theorem Binary64.map_token_inj {xs ys : List Binary64} :
    xs.map Binary64.token = ys.map Binary64.token ↔
      xs.map Binary64.unsignZero = ys.map Binary64.unsignZero := by
  induction xs generalizing ys with
  | nil => cases ys <;> simp
  | cons x xs ih =>
      cases ys with
      | nil => simp
      | cons y ys => simp [Binary64.token_inj, ih]

theorem Command.cuts_word : Cuts (fun word : String => [word]) id (fun _ => True) := by
  intro a b r s _ _
  simp

theorem Command.cuts_word64 : Cuts (fun n : UInt64 => [toString n.toNat]) id (fun _ => True) := by
  intro a b r s _ _
  simp [UInt64.toNat_inj]

namespace RangeFilter

def visible (f : RangeFilter) : RangeFilter := ⟨f.field, f.min.unsignZero, f.max.unsignZero⟩

def body (f : RangeFilter) : List String := [f.field, f.min.token, f.max.token]

theorem map_token_arguments (f : RangeFilter) :
    f.arguments.map Argument.token = "WHERE" :: f.body := by
  simp [arguments, body]

theorem cuts_body : Cuts body visible (fun _ => True) := by
  intro f g r s _ _
  simp [body, visible, Binary64.token_inj, and_assoc]

end RangeFilter

namespace MembershipFilter

def visible (f : MembershipFilter) : MembershipFilter :=
  ⟨f.field, f.values.map Binary64.unsignZero⟩

def body (f : MembershipFilter) : List String :=
  f.field :: toString f.values.length :: f.values.map Binary64.token

theorem map_token_arguments (f : MembershipFilter) :
    f.arguments.map Argument.token = "WHEREIN" :: f.body := by
  simp [arguments, Argument.counted, body]

theorem cuts_body : Cuts body visible (fun _ => True) := by
  intro f g r s _ _
  simp only [body, visible, List.cons_append, List.cons.injEq, mk.injEq]
  rw [← Binary64.map_token_inj]
  constructor
  · intro h
    obtain ⟨field, count, values⟩ := h
    have lengths : f.values.length = g.values.length := Nat.repr_inj.1 count
    have parts := List.append_inj values (by simpa using lengths)
    exact ⟨⟨field, parts.1⟩, parts.2⟩
  · intro h
    obtain ⟨⟨field, values⟩, rest⟩ := h
    have lengths : f.values.length = g.values.length := by
      simpa using congrArg List.length values
    rw [lengths, values, rest]
    exact ⟨field, rfl, rfl⟩

end MembershipFilter

namespace Filters

def visible (f : Filters) : Filters :=
  { f with
    ranges := f.ranges.map RangeFilter.visible
    memberships := f.memberships.map MembershipFilter.visible }

def tokens (f : Filters) : List String := f.arguments.map Argument.token

theorem tokens_eq (f : Filters) :
    f.tokens = (f.ranges.flatMap fun range => "WHERE" :: range.body) ++
      ((f.memberships.flatMap fun membership => "WHEREIN" :: membership.body) ++
        f.pattern.elim [] fun pattern => "MATCH" :: [pattern]) := by
  have pattern (o : Option String) :
      (o.elim [] fun pattern => [Argument.word "MATCH", .word pattern]).map Argument.token =
        o.elim [] fun pattern => "MATCH" :: [pattern] := by
    cases o <;> rfl
  simp only [tokens, arguments, List.map_append, List.map_flatMap, pattern, List.append_assoc,
    RangeFilter.map_token_arguments, MembershipFilter.map_token_arguments]

def words : List String := ["WHERE", "WHEREIN", "MATCH"]

theorem opens_tokens (f : Filters) : Opens words f.tokens := by
  rw [tokens_eq]
  exact (Opens.repeated _ _).append ((Opens.repeated _ _).append (Opens.optional _ _))

theorem cuts_tokens {behind : List String} (other : ∀ word ∈ words, word ∉ behind) :
    Cuts tokens visible (Opens behind) := by
  have whereFree : "WHERE" ∉ ["WHEREIN", "MATCH"] ++ behind := by
    simpa using other "WHERE" (by decide)
  have whereinFree : "WHEREIN" ∉ ["MATCH"] ++ behind := by
    simpa using other "WHEREIN" (by decide)
  have ranges := (Cuts.repeated RangeFilter.cuts_body whereFree).comap Filters.ranges
  have memberships :=
    (Cuts.repeated MembershipFilter.cuts_body whereinFree).comap Filters.memberships
  have pattern := (Cuts.optional cuts_word (other "MATCH" (by decide))).comap Filters.pattern
  have tail := memberships.append pattern fun f r hr => (Opens.optional f.pattern _).append hr
  have all := ranges.append tail fun f r hr =>
    ((Opens.repeated f.memberships _).append (Opens.optional f.pattern _)).append hr
  have tokens : tokens = _ := funext tokens_eq
  rw [tokens]
  refine all.of_view fun f g => ?_
  simp [visible]

end Filters

def Command.spatialWords : List String :=
  ["TILE", "BOUNDS", "CIRCLE", "GET", "HASH", "QUADKEY", "OBJECT", "POINT", "ROAM"]

theorem Binary64.token_not_mem_spatialWords (x : Binary64) : x.token ∉ Command.spatialWords := by
  have letters : ∀ word ∈ Command.spatialWords, ∀ c ∈ word.toList.head?, ¬ StartsNumber c := by
    simp [Command.spatialWords, StartsNumber]
  exact fun member => Binary64.token_ne (letters x.token member) rfl

/-- What may stand behind a format. BOUNDS is a format and the word of an area; as an area it goes on
with a number. -/
structure Command.BehindFormat (tokens : List String) : Prop where
  opens : Opens spatialWords tokens
  bounds : ∀ rest, tokens = "BOUNDS" :: rest → ∃ x : Binary64, rest.head? = some x.token

namespace Command.BehindFormat

theorem nil : BehindFormat [] := ⟨Opens.nil, fun _ heq => nomatch heq⟩

theorem cons {word : String} (spatial : word ∈ spatialWords) (other : word ≠ "BOUNDS")
    (rest : List String) : BehindFormat (word :: rest) :=
  ⟨Opens.cons spatial, fun _ heq => absurd (List.cons.inj heq).1 other⟩

end Command.BehindFormat

namespace OutputFormat

def tokens (f : OutputFormat) : List String := f.arguments.map Argument.token

theorem map_token_optional (o : Option OutputFormat) :
    (o.elim [] arguments).map Argument.token = o.elim [] tokens := by
  cases o <;> rfl

def words : List String := ["COUNT", "IDS", "OBJECTS", "POINTS", "BOUNDS", "HASHES"]

theorem opens_tokens (o : Option OutputFormat) : Opens words (o.elim [] tokens) := by
  cases o with
  | none => exact Opens.nil
  | some f => cases f <;> exact Opens.cons (by decide)

theorem opens_append (o : Option OutputFormat) {r : List String} (hr : BehindFormat r) :
    Opens (words ++ spatialWords) (o.elim [] tokens ++ r) :=
  (opens_tokens o).append hr.opens

/-- The area BOUNDS is not taken for the format, since no spatial group begins with a number. -/
theorem tokens_append_ne {f : OutputFormat} {r s : List String} (hr : BehindFormat r)
    (hs : BehindFormat s) : f.tokens ++ s ≠ r := by
  intro heq
  cases f with
  | bounds =>
      obtain ⟨x, hx⟩ := hr.bounds s heq.symm
      exact x.token_not_mem_spatialWords (hs.opens x.token hx)
  | count => exact hr.opens.ne_cons (by decide) heq.symm
  | ids => exact hr.opens.ne_cons (by decide) heq.symm
  | objects => exact hr.opens.ne_cons (by decide) heq.symm
  | points => exact hr.opens.ne_cons (by decide) heq.symm
  | hashes precision => exact hr.opens.ne_cons (by decide) heq.symm

theorem cuts_tokens : Cuts tokens id (fun _ => True) := by
  intro f g r s _ _
  cases f <;> cases g <;> simp [tokens, arguments, UInt32.toNat_inj]

theorem cuts_optional : Cuts (fun o : Option OutputFormat => o.elim [] tokens) id BehindFormat := by
  intro o p r s hr hs
  cases o with
  | none =>
      cases p with
      | none => simp
      | some g => simpa using (tokens_append_ne hr hs).symm
  | some f =>
      cases p with
      | none => simpa using tokens_append_ne hs hr
      | some g => simpa using cuts_tokens (a := f) (b := g) (r := r) (s := s) trivial trivial

end OutputFormat

namespace Area

/-- Areas look the same if their numbers are equal and their geometries have the same text. -/
def visible : Area → Area
  | .bounds minLat minLon maxLat maxLon =>
    .bounds minLat.unsignZero minLon.unsignZero maxLat.unsignZero maxLon.unsignZero
  | .circle lat lon meters => .circle lat.unsignZero lon.unsignZero meters.unsignZero
  | .object geometry => .object ⟨.text geometry.json.compact, trivial⟩
  | area => area

def tokens (a : Area) : List String := a.arguments.map Argument.token

theorem tokens_inj {a b : Area} : a.tokens = b.tokens ↔ a.visible = b.visible := by
  cases a <;> cases b <;>
    simp [tokens, arguments, Argument.bounds, visible, Binary64.token_inj, UInt64.toNat_inj,
      UInt32.toNat_inj, Json.text]

theorem behindFormat_tokens (a : Area) : BehindFormat a.tokens := by
  refine ⟨?_, fun rest heq => ?_⟩
  · cases a <;> exact Opens.cons (by decide)
  · cases a <;> simp [tokens, arguments, Argument.bounds] at heq
    subst heq
    exact ⟨_, rfl⟩

end Area

namespace Argument

theorem map_token_point (lat lon : Binary64) (extra : Option Binary64) :
    (point lat lon extra).map token =
      "POINT" :: lat.token :: lon.token :: extra.toList.map Binary64.token := by
  simp [point]

theorem map_token_point_inj {lat lon lat' lon' : Binary64} {extra extra' : Option Binary64} :
    (point lat lon extra).map token = (point lat' lon' extra').map token ↔
      lat.unsignZero = lat'.unsignZero ∧ lon.unsignZero = lon'.unsignZero ∧
        extra.map Binary64.unsignZero = extra'.map Binary64.unsignZero := by
  simp only [map_token_point, List.cons.injEq, true_and, Binary64.token_inj]
  cases extra <;> cases extra' <;> simp [Binary64.token_inj]

end Argument

namespace Selection

variable {α : Type} [Enumerated α]

theorem map_token_arguments (clause : String) (s : Selection α) :
    (s.arguments clause).map Argument.token = s.token?.elim [] fun token => [clause, token] := by
  rw [arguments]
  cases s.token? <;> rfl

theorem cuts_tokens {clause : String} {behind : List String} (other : clause ∉ behind)
    (inj : ∀ s t : Selection α, s.token? = t.token? ↔ s = t) :
    Cuts (fun s : Selection α => (s.arguments clause).map Argument.token) id (Opens behind) := by
  have same (s t : Selection α) : s.token?.map id = t.token?.map id ↔ id s = id t := by
    simpa using inj s t
  have cuts := ((Cuts.optional cuts_word other).comap (token? (α := α))).of_view same
  simpa only [map_token_arguments] using cuts

theorem opens_tokens (clause : String) (s : Selection α) :
    Opens [clause] ((s.arguments clause).map Argument.token) := by
  rw [map_token_arguments]
  exact Opens.optional _ _

end Selection

namespace Selection

def joined (names : List (Bool × String)) : Option String :=
  let chosen := (names.filter Prod.fst).map Prod.snd
  if chosen.isEmpty then none else some (",".intercalate chosen)

theorem token?_eq_joined {α : Type} [Enumerated α] (s : Selection α) :
    s.token? = joined (Enumerated.all.map fun a => (s.contains a, Enumerated.label a)) := by
  simp [token?, isEmpty, joined, toList, List.filter_map, Function.comp_def]

end Selection

theorem FenceEvent.token?_inj (s t : Selection FenceEvent) : s.token? = t.token? ↔ s = t := by
  have flags : ∀ a b c a' b' c' : Bool,
      Selection.joined [(a, "enter"), (b, "exit"), (c, "cross")] =
          Selection.joined [(a', "enter"), (b', "exit"), (c', "cross")] →
        a = a' ∧ b = b' ∧ c = c' := by
    decide
  refine ⟨fun same => ?_, fun same => congrArg _ same⟩
  rw [Selection.token?_eq_joined, Selection.token?_eq_joined] at same
  obtain ⟨enter, exit, cross⟩ := flags _ _ _ _ _ _ same
  ext event
  cases event <;> assumption

theorem FenceWrite.token?_inj (s t : Selection FenceWrite) : s.token? = t.token? ↔ s = t := by
  have flags : ∀ a b c d a' b' c' d' : Bool,
      Selection.joined [(a, "set"), (b, "del"), (c, "expire"), (d, "drop")] =
          Selection.joined [(a', "set"), (b', "del"), (c', "expire"), (d', "drop")] →
        a = a' ∧ b = b' ∧ c = c' ∧ d = d' := by
    decide +kernel
  refine ⟨fun same => ?_, fun same => congrArg _ same⟩
  rw [Selection.token?_eq_joined, Selection.token?_eq_joined] at same
  obtain ⟨set, del, expire, drop⟩ := flags _ _ _ _ _ _ _ _ same
  ext write
  cases write <;> assumption

namespace FieldValue

def visible (f : FieldValue) : FieldValue := ⟨f.name, f.value.unsignZero⟩

def body (f : FieldValue) : List String := [f.name, f.value.token]

theorem map_token_arguments (f : FieldValue) :
    f.arguments.map Argument.token = "FIELD" :: f.body := rfl

theorem cuts_body : Cuts body visible (fun _ => True) := by
  intro f g r s _ _
  simp [body, visible, Binary64.token_inj, and_assoc]

end FieldValue

namespace Condition

def words : List String := ["NX", "XX"]

theorem opens_tokens (o : Option Condition) : Opens words (o.elim [] fun c => [c.token]) := by
  cases o with
  | none => exact Opens.nil
  | some c => cases c <;> exact Opens.cons (by decide)

theorem cuts_tokens {behind : List String} (other : ∀ word ∈ words, word ∉ behind) :
    Cuts (fun o : Option Condition => o.elim [] fun c => [c.token]) id (Opens behind) := by
  have ne (c : Condition) {r s : List String} (hr : Opens behind r) : r ≠ c.token :: s :=
    hr.ne_cons (other c.token (by cases c <;> decide))
  intro o p r s hr hs
  cases o with
  | none =>
      cases p with
      | none => simp
      | some c => simpa using ne c hr
  | some c =>
      cases p with
      | none => simpa using (ne c hs).symm
      | some d => cases c <;> cases d <;> simp [token]

end Condition

namespace Payload

def visible : Payload → Payload
  | .point lat lon z => .point lat.unsignZero lon.unsignZero (z.map Binary64.unsignZero)
  | .bounds minLat minLon maxLat maxLon =>
    .bounds minLat.unsignZero minLon.unsignZero maxLat.unsignZero maxLon.unsignZero
  | .object geometry => .object ⟨.text geometry.json.compact, trivial⟩
  | payload => payload

def tokens (p : Payload) : List String := p.arguments.map Argument.token

def words : List String := ["POINT", "BOUNDS", "HASH", "OBJECT", "STRING"]

theorem opens_tokens (o : Option Payload) : Opens words (o.elim [] tokens) := by
  cases o with
  | none => exact Opens.nil
  | some p => cases p <;> exact Opens.cons (by decide)

theorem tokens_inj {p q : Payload} : p.tokens = q.tokens ↔ p.visible = q.visible := by
  cases p with
  | point lat lon z =>
      cases q with
      | point lat' lon' z' =>
          rw [visible, visible, point.injEq]
          exact Argument.map_token_point_inj
      | _ => simp [tokens, arguments, Argument.map_token_point, Argument.bounds, visible]
  | _ =>
      cases q <;>
        simp [tokens, arguments, Argument.map_token_point, Argument.bounds, visible,
          Binary64.token_inj, Json.text]

theorem optional_tokens_inj {o r : Option Payload} :
    o.elim [] tokens = r.elim [] tokens ↔ o.map visible = r.map visible := by
  have ne (p : Payload) : p.tokens ≠ [] := by
    cases p <;> exact List.cons_ne_nil _ _
  cases o with
  | none =>
      cases r with
      | none => simp
      | some q => simpa using (ne q).symm
  | some p =>
      cases r with
      | none => simpa using ne p
      | some q => simpa using tokens_inj

end Payload

end GeoQuery
