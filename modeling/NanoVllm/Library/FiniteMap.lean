/- module: NanoVllm/Library/FiniteMap
   layer: library
   digest: Restriction of a finite map to the values a test keeps. -/

import Mathlib.Data.Finmap

set_option autoImplicit false
set_option relaxedAutoImplicit false

namespace NanoVllm.Library

variable {κ ν : Type}

def restrict (keep : ν → Bool) (m : Finmap (fun _ : κ => ν)) : Finmap (fun _ : κ => ν) where
  entries := m.entries.filter fun e => keep e.2 = true
  nodupKeys := by
    have hkeys : (m.entries.filter fun e => keep e.2 = true).keys ≤ m.entries.keys :=
      Multiset.map_le_map (Multiset.filter_le _ _)
    exact Multiset.nodup_keys.mp
      (Multiset.nodup_of_le hkeys (Multiset.nodup_keys.mpr m.nodupKeys))

theorem mem_restrict_entries (keep : ν → Bool) (m : Finmap (fun _ : κ => ν)) (k : κ) (v : ν) :
    (⟨k, v⟩ : Sigma fun _ : κ => ν) ∈ (restrict keep m).entries ↔
      ⟨k, v⟩ ∈ m.entries ∧ keep v = true := by
  simp [restrict]

variable [DecidableEq κ]

theorem lookup_restrict_eq_some (keep : ν → Bool) (m : Finmap (fun _ : κ => ν)) (k : κ) (v : ν) :
    (restrict keep m).lookup k = some v ↔ m.lookup k = some v ∧ keep v = true := by
  rw [Finmap.lookup_eq_some_iff, Finmap.lookup_eq_some_iff, mem_restrict_entries]

@[simp] theorem lookup_restrict (keep : ν → Bool) (m : Finmap (fun _ : κ => ν)) (k : κ) :
    (restrict keep m).lookup k = (m.lookup k).filter keep := by
  apply Option.ext
  intro v
  rw [lookup_restrict_eq_some, Option.filter_eq_some_iff]

theorem restrict_true (m : Finmap (fun _ : κ => ν)) : restrict (fun _ => true) m = m := by
  apply Finmap.ext_lookup
  intro k
  rw [lookup_restrict]
  cases m.lookup k <;> rfl

theorem restrict_comm (keep keep' : ν → Bool) (m : Finmap (fun _ : κ => ν)) :
    restrict keep (restrict keep' m) = restrict keep' (restrict keep m) := by
  apply Finmap.ext_lookup
  intro k
  simp only [lookup_restrict, Option.filter_filter, Bool.and_comm]

end NanoVllm.Library
