import GeoQuery.Json.Basic

namespace GeoQuery

namespace Json

mutual

/-- No object repeats a name. -/
def Distinct : Json → Prop
  | .leaf _ => True
  | .array items => DistinctItems items
  | .object members => (members.map Prod.fst).Nodup ∧ DistinctMembers members

def DistinctItems : List Json → Prop
  | [] => True
  | item :: rest => item.Distinct ∧ DistinctItems rest

def DistinctMembers : List (String × Json) → Prop
  | [] => True
  | (_, value) :: rest => value.Distinct ∧ DistinctMembers rest

end

section

variable {name : String} {value : Json} {members : List (String × Json)}

theorem mem_putMember {m : String × Json} (h : m ∈ putMember name value members) :
    m = (name, value) ∨ m ∈ members := by
  induction members with
  | nil => exact .inl (List.mem_singleton.1 h)
  | cons first members ih =>
      obtain ⟨key, old⟩ := first
      rw [putMember] at h
      split at h
      case isTrue same =>
        subst same
        cases List.mem_cons.1 h with
        | inl here => exact .inl here
        | inr behind => exact .inr (List.mem_cons_of_mem _ behind)
      case isFalse =>
        cases List.mem_cons.1 h with
        | inl here => exact .inr (here ▸ List.mem_cons_self)
        | inr behind => exact (ih behind).imp_right (List.mem_cons_of_mem _)

theorem nodup_putMember (distinct : (members.map Prod.fst).Nodup) :
    ((putMember name value members).map Prod.fst).Nodup := by
  induction members with
  | nil => simp [putMember]
  | cons first members ih =>
      obtain ⟨key, old⟩ := first
      obtain ⟨new, others⟩ := List.nodup_cons.1 distinct
      rw [putMember]
      split
      case isTrue => exact distinct
      case isFalse other =>
        rw [List.map_cons, List.nodup_cons]
        refine ⟨?_, ih others⟩
        intro again
        obtain ⟨m, member, same⟩ := List.mem_map.1 again
        cases mem_putMember member with
        | inl own => exact other (same.symm.trans (congrArg Prod.fst own))
        | inr old => exact new (List.mem_map.2 ⟨m, old, same⟩)

theorem distinctMembers_putMember (own : value.Distinct) (others : DistinctMembers members) :
    DistinctMembers (putMember name value members) := by
  induction members with
  | nil => exact ⟨own, trivial⟩
  | cons first members ih =>
      obtain ⟨key, old⟩ := first
      rw [putMember]
      split
      case isTrue => exact ⟨own, others.2⟩
      case isFalse => exact ⟨others.1, ih others.2⟩

end

theorem distinct_foldl_putMember {members all : List (String × Json)}
    (each : DistinctMembers members) (distinct : (Json.object all).Distinct) :
    (Json.object (members.foldl (fun all m => putMember m.1 m.2 all) all)).Distinct := by
  induction members generalizing all with
  | nil => exact distinct
  | cons m members ih =>
      exact ih each.2 ⟨nodup_putMember distinct.1, distinctMembers_putMember each.1 distinct.2⟩

mutual

theorem distinct_collapse : (j : Json) → j.collapse.Distinct
  | .leaf _ => trivial
  | .array items => distinct_collapseItems items
  | .object members =>
      distinct_foldl_putMember (distinct_collapseMembers members) ⟨List.nodup_nil, trivial⟩

theorem distinct_collapseItems : (items : List Json) → DistinctItems (collapseItems items)
  | [] => trivial
  | item :: items => ⟨item.distinct_collapse, distinct_collapseItems items⟩

theorem distinct_collapseMembers : (members : List (String × Json)) →
    DistinctMembers (collapseMembers members)
  | [] => trivial
  | (_, value) :: members => ⟨value.distinct_collapse, distinct_collapseMembers members⟩

end

/-- A JSON value in which no object repeats a name. -/
@[ext]
structure Value where
  json : Json
  distinct : json.Distinct

namespace Value

/-- The value that is kept of one that may repeat names. -/
def ofJson (j : Json) : Value := ⟨j.collapse, j.distinct_collapse⟩

instance : Inhabited Value := ⟨⟨.null, trivial⟩⟩

instance : BEq Value := ⟨fun v w => v.json == w.json⟩

end Value

end Json

end GeoQuery
