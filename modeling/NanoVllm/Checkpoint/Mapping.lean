/- module: NanoVllm/Checkpoint/Mapping
   layer: refinement
   digest: What the packed mapping asks of the parameters, and what the two preparation loops find. -/

import NanoVllm.Library.Call
import NanoVllm.Utils.Loader

set_option autoImplicit false
set_option relaxedAutoImplicit false

open NanoVllm.Library

namespace NanoVllm

variable {Shard : Type} [DecidableEq Shard] {mapping : List (String × String × Shard)}

theorem mem_dictKeys {α : Type} [DecidableEq α] {keys : List α} {key : α} :
    key ∈ dictKeys keys ↔ key ∈ keys := by
  simp [dictKeys]

private theorem nodup_dictKeys {α : Type} [DecidableEq α] (keys : List α) : (dictKeys keys).Nodup :=
  List.nodup_reverse.mpr (List.nodup_dedup _)

/-- A parameter name with a packed name among its segments. -/
def Packed (mapping : List (String × String × Shard)) (name : DottedName) : Prop :=
  ∃ item ∈ mapping, item.2.1 ∈ name

/-- A packed parameter waits for this shard. -/
def Requires (mapping : List (String × String × Shard)) (name : DottedName) (shardId : Shard) :
    Prop :=
  ∃ item ∈ mapping, item.2.1 ∈ name ∧ item.2.2 = shardId

omit [DecidableEq Shard] in
theorem Requires.packed {name : DottedName} {shardId : Shard}
    (h : Requires mapping name shardId) : Packed mapping name := by
  obtain ⟨item, hitem, hname, -⟩ := h
  exact ⟨item, hitem, hname⟩

/-- The mappings `load_model` accepts for these parameter names. -/
structure AcceptedMapping (mapping : List (String × String × Shard)) (names : List DottedName) :
    Prop where
  segments : ∀ item ∈ mapping, '.' ∉ item.1.toList ∧ '.' ∉ item.2.1.toList
  shards : (mapping.map Prod.snd).Nodup
  destinations : ∀ name ∈ names, ∀ item ∈ mapping, ∀ other ∈ mapping,
    item.2.1 ∈ name → other.2.1 ∈ name → item.2.1 = other.2.1

omit [DecidableEq Shard] in
private theorem mem_packedDestinations {name : DottedName} {packedName : String} :
    packedName ∈ packedDestinations mapping name ↔
      packedName ∈ name ∧ ∃ item ∈ mapping, item.2.1 = packedName := by
  simp only [packedDestinations, List.mem_filter, mem_dictKeys, List.mem_map, decide_eq_true_eq]
  exact and_comm

omit [DecidableEq Shard] in
private theorem packedDestinations_eq_nil {name : DottedName} :
    packedDestinations mapping name = [] ↔ ¬ Packed mapping name := by
  rw [List.eq_nil_iff_forall_not_mem]
  constructor
  · rintro h ⟨item, hitem, hname⟩
    exact h _ (mem_packedDestinations.mpr ⟨hname, item, hitem, rfl⟩)
  · rintro h packedName hmem
    obtain ⟨hname, item, hitem, rfl⟩ := mem_packedDestinations.mp hmem
    exact h ⟨item, hitem, hname⟩

section Segments

variable [ToString Shard]

omit [DecidableEq Shard] [ToString Shard] in
private theorem checkMappingSegments_ok :
    checkMappingSegments mapping = .ok ⟨⟩ ↔
      ∀ item ∈ mapping, '.' ∉ item.1.toList ∧ '.' ∉ item.2.1.toList := by
  constructor
  · intro h item hitem
    have hone := Call.except_forM_ok h item hitem
    split at hone
    · cases hone
    · next hno => simpa using hno
  · intro h
    refine Call.except_forM_of_ok fun item hitem => ?_
    have hno := h item hitem
    rw [if_neg (by simp [hno])]
    rfl

private theorem inverse_foldlM {start : String → List Shard} {inverse : String → List Shard} :
    mapping.foldlM invertItem start = .ok inverse →
      (mapping.map Prod.snd).Nodup ∧ (∀ item ∈ mapping, item.2.2 ∉ start item.2.1) ∧
        ∀ packedName shardId, shardId ∈ inverse packedName ↔
          shardId ∈ start packedName ∨ (packedName, shardId) ∈ mapping.map Prod.snd := by
  induction mapping generalizing start with
  | nil =>
    intro h
    obtain rfl := Except.ok.inj h
    simp
  | cons item mapping ih =>
    intro h
    rw [List.foldlM_cons] at h
    obtain ⟨mid, hmid, hrest⟩ := Call.except_bind_ok h
    unfold invertItem at hmid
    split at hmid
    · cases hmid
    · next hfresh =>
      obtain rfl := Except.ok.inj hmid
      obtain ⟨hnodup, hstart, hmem⟩ := ih hrest
      have hitem : item.2 ∉ mapping.map Prod.snd := by
        intro hin
        obtain ⟨other, hother, heq⟩ := List.mem_map.mp hin
        have := hstart other hother
        rw [heq, Function.update_self] at this
        exact this (by simp)
      refine ⟨List.nodup_cons.mpr ⟨hitem, hnodup⟩, ?_, fun packedName shardId => ?_⟩
      · intro other hother
        rcases List.mem_cons.mp hother with rfl | hother
        · exact hfresh
        · have hno := hstart other hother
          by_cases hsame : other.2.1 = item.2.1
          · rw [hsame, Function.update_self] at hno
            rw [hsame]
            exact fun hin => hno (List.mem_append_left _ hin)
          · rwa [Function.update_of_ne hsame] at hno
      · rw [hmem, List.map_cons, List.mem_cons]
        by_cases hsame : packedName = item.2.1
        · subst hsame
          rw [Function.update_self, List.mem_append, List.mem_singleton, or_assoc]
          have heq : (item.2.1, shardId) = item.2 ↔ shardId = item.2.2 :=
            ⟨fun h => congrArg Prod.snd h, fun h => by rw [h]⟩
          rw [heq]
        · rw [Function.update_of_ne hsame]
          have hne : (packedName, shardId) ≠ item.2 := fun h => hsame (congrArg Prod.fst h)
          simp [hne]

private theorem inverse_foldlM_of_nodup {start : String → List Shard}
    (hnodup : (mapping.map Prod.snd).Nodup) (hstart : ∀ item ∈ mapping, item.2.2 ∉ start item.2.1) :
    ∃ inverse, mapping.foldlM invertItem start = .ok inverse := by
  induction mapping generalizing start with
  | nil => exact ⟨start, rfl⟩
  | cons item mapping ih =>
    rw [List.map_cons, List.nodup_cons] at hnodup
    have hrest : ∀ other ∈ mapping, other.2.2 ∉
        Function.update start item.2.1 (start item.2.1 ++ [item.2.2]) other.2.1 := by
      intro other hother
      have hno := hstart other (List.mem_cons_of_mem item hother)
      by_cases hsame : other.2.1 = item.2.1
      · rw [hsame, Function.update_self, List.mem_append, List.mem_singleton]
        rw [hsame] at hno
        rintro (hin | heq)
        · exact hno hin
        · exact hnodup.1 (List.mem_map.mpr ⟨other, hother, Prod.ext hsame heq⟩)
      · rwa [Function.update_of_ne hsame]
    obtain ⟨inverse, hinverse⟩ := ih hnodup.2 hrest
    refine ⟨inverse, ?_⟩
    rw [List.foldlM_cons, invertItem, if_neg (hstart item List.mem_cons_self)]
    exact hinverse

end Segments

omit [DecidableEq Shard] in
private theorem requirements_foldlM (inverse : String → List Shard) {names : List DottedName}
    {start requirements : List (DottedName × List Shard)} :
    names.foldlM (requireShards mapping inverse) start = .ok requirements →
      (∀ name ∈ names, (packedDestinations mapping name).length ≤ 1) ∧
        ∀ entry, entry ∈ requirements ↔ entry ∈ start ∨ ∃ name ∈ names, ∃ packedName,
          packedDestinations mapping name = [packedName] ∧ entry = (name, inverse packedName) := by
  induction names generalizing start with
  | nil =>
    intro h
    obtain rfl := Except.ok.inj h
    simp
  | cons name names ih =>
    intro h
    rw [List.foldlM_cons] at h
    obtain ⟨mid, hmid, hrest⟩ := Call.except_bind_ok h
    obtain ⟨hlen, hmem⟩ := ih hrest
    unfold requireShards at hmid
    cases hdest : packedDestinations mapping name with
    | nil =>
      rw [hdest] at hmid
      obtain rfl := Except.ok.inj hmid
      refine ⟨?_, fun entry => ?_⟩
      · intro other hother
        rcases List.mem_cons.mp hother with rfl | hother
        · simp [hdest]
        · exact hlen other hother
      · rw [hmem]
        simp [hdest]
    | cons packedName more =>
      cases more with
      | nil =>
        rw [hdest] at hmid
        obtain rfl := Except.ok.inj hmid
        refine ⟨?_, fun entry => ?_⟩
        · intro other hother
          rcases List.mem_cons.mp hother with rfl | hother
          · simp [hdest]
          · exact hlen other hother
        · rw [hmem, List.mem_append, List.mem_singleton, or_assoc]
          simp [hdest]
      | cons second more =>
        rw [hdest] at hmid
        cases hmid

omit [DecidableEq Shard] in
private theorem requirements_foldlM_of_unique (inverse : String → List Shard) {names : List DottedName}
    {start : List (DottedName × List Shard)}
    (h : ∀ name ∈ names, (packedDestinations mapping name).length ≤ 1) :
    ∃ requirements, names.foldlM (requireShards mapping inverse) start = .ok requirements := by
  induction names generalizing start with
  | nil => exact ⟨start, rfl⟩
  | cons name names ih =>
    have hone := h name List.mem_cons_self
    have hrest := fun other hother => h other (List.mem_cons_of_mem name hother)
    cases hdest : packedDestinations mapping name with
    | nil =>
      obtain ⟨requirements, hreq⟩ := @ih start hrest
      exact ⟨requirements, by rw [List.foldlM_cons, requireShards, hdest]; exact hreq⟩
    | cons packedName more =>
      cases more with
      | nil =>
        obtain ⟨requirements, hreq⟩ := @ih (start ++ [(name, inverse packedName)]) hrest
        exact ⟨requirements, by rw [List.foldlM_cons, requireShards, hdest]; exact hreq⟩
      | cons second more =>
        rw [hdest] at hone
        simp at hone

structure Prepared (mapping : List (String × String × Shard)) (names : List DottedName)
    (requirements : List (DottedName × List Shard)) : Prop where
  packed : ∀ name, name ∈ requirements.map Prod.fst ↔ name ∈ names ∧ Packed mapping name
  shards : ∀ entry ∈ requirements, ∀ shardId, shardId ∈ entry.2 ↔ Requires mapping entry.1 shardId

omit [DecidableEq Shard] in
private theorem packedDestinations_length {name : DottedName} :
    (packedDestinations mapping name).length ≤ 1 ↔
      ∀ item ∈ mapping, ∀ other ∈ mapping, item.2.1 ∈ name → other.2.1 ∈ name →
        item.2.1 = other.2.1 := by
  have hnodup : (packedDestinations mapping name).Nodup := (nodup_dictKeys _).filter _
  constructor
  · intro hlen item hitem other hother hname hname'
    have hfirst : item.2.1 ∈ packedDestinations mapping name :=
      mem_packedDestinations.mpr ⟨hname, item, hitem, rfl⟩
    have hsecond : other.2.1 ∈ packedDestinations mapping name :=
      mem_packedDestinations.mpr ⟨hname', other, hother, rfl⟩
    cases hdest : packedDestinations mapping name with
    | nil =>
      rw [hdest] at hfirst
      exact absurd hfirst List.not_mem_nil
    | cons packedName more =>
      rw [hdest, List.length_cons] at hlen
      have hmore : more = [] := List.eq_nil_of_length_eq_zero (by omega)
      rw [hdest, hmore] at hfirst hsecond
      rw [List.mem_singleton.mp hfirst, List.mem_singleton.mp hsecond]
  · intro h
    cases hdest : packedDestinations mapping name with
    | nil => simp
    | cons packedName more =>
      cases more with
      | nil => simp
      | cons second more =>
        rw [hdest] at hnodup
        obtain ⟨hname, item, hitem, rfl⟩ := mem_packedDestinations.mp
          (hdest ▸ List.mem_cons_self : packedName ∈ packedDestinations mapping name)
        obtain ⟨hname', other, hother, rfl⟩ := mem_packedDestinations.mp
          (hdest ▸ List.mem_cons_of_mem _ List.mem_cons_self :
            second ∈ packedDestinations mapping name)
        rw [h item hitem other hother hname hname'] at hnodup
        simp at hnodup

section Prepare

variable [ToString Shard] {names : List DottedName}

theorem prepare_ok {inverse : String → List Shard} {requirements : List (DottedName × List Shard)}
    (hsegments : checkMappingSegments mapping = .ok ⟨⟩)
    (hinverse : inversePackedMapping mapping = .ok inverse)
    (hrequirements : packedRequirements mapping inverse names = .ok requirements) :
    AcceptedMapping mapping names ∧ Prepared mapping names requirements := by
  obtain ⟨hnodup, -, hshards⟩ := inverse_foldlM hinverse
  obtain ⟨hlen, hmem⟩ := requirements_foldlM inverse hrequirements
  refine ⟨⟨checkMappingSegments_ok.mp hsegments, hnodup, fun name hname =>
    packedDestinations_length.mp (hlen name hname)⟩, fun name => ?_, fun entry hentry shardId => ?_⟩
  · constructor
    · intro h
      obtain ⟨entry, hentry, rfl⟩ := List.mem_map.mp h
      obtain hnil | ⟨name, hname, packedName, hdest, rfl⟩ := (hmem entry).mp hentry
      · exact absurd hnil List.not_mem_nil
      · refine ⟨hname, by_contra fun hpacked => ?_⟩
        rw [packedDestinations_eq_nil.mpr hpacked] at hdest
        cases hdest
    · rintro ⟨hname, hpacked⟩
      cases hdest : packedDestinations mapping name with
      | nil => exact absurd hpacked (packedDestinations_eq_nil.mp hdest)
      | cons packedName more =>
        have hone := hlen name hname
        rw [hdest, List.length_cons] at hone
        have hmore : more = [] := List.eq_nil_of_length_eq_zero (by omega)
        rw [hmore] at hdest
        exact List.mem_map.mpr ⟨(name, inverse packedName),
          (hmem _).mpr (.inr ⟨name, hname, packedName, hdest, rfl⟩), rfl⟩
  · obtain hnil | ⟨name, hname, packedName, hdest, rfl⟩ := (hmem entry).mp hentry
    · exact absurd hnil List.not_mem_nil
    · have hpackedName := mem_packedDestinations.mp
        (hdest ▸ List.mem_singleton_self _ : packedName ∈ packedDestinations mapping name)
      rw [hshards]
      constructor
      · rintro (hnil | hin)
        · exact absurd hnil List.not_mem_nil
        · obtain ⟨item, hitem, heq⟩ := List.mem_map.mp hin
          exact ⟨item, hitem, by rw [heq]; exact hpackedName.1, by rw [heq]⟩
      · rintro ⟨item, hitem, hsegment, rfl⟩
        have heq := List.mem_singleton.mp (hdest ▸ mem_packedDestinations.mpr
          ⟨hsegment, item, hitem, rfl⟩ : item.2.1 ∈ [packedName])
        exact .inr (List.mem_map.mpr ⟨item, hitem, by rw [← heq]⟩)

theorem prepare_of_accepted (h : AcceptedMapping mapping names) :
    ∃ inverse requirements, checkMappingSegments mapping = .ok ⟨⟩ ∧
      inversePackedMapping mapping = .ok inverse ∧
      packedRequirements mapping inverse names = .ok requirements := by
  obtain ⟨inverse, hinverse⟩ := @inverse_foldlM_of_nodup _ _ mapping _ (fun _ => []) h.shards
    (by simp)
  obtain ⟨requirements, hrequirements⟩ := @requirements_foldlM_of_unique _ mapping inverse names []
    fun name hname => packedDestinations_length.mpr (h.destinations name hname)
  exact ⟨inverse, requirements, checkMappingSegments_ok.mpr h.segments, hinverse, hrequirements⟩

end Prepare

end NanoVllm
