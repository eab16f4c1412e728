import LogProcess.Process.DataReceive

/-! # What a request transmits

`kv2request` of `preprocess/data_preprocess.cc` writes fields of a record into a request, and
`request2kv` of `process/process_impl.cc` reads them on another node. What is read is the part of
the record that may be transmitted, and the request depends on no other field
(`request2kv_kv2request`).
-/

namespace LogProcess

/-- The fields that leave a node. -/
def IsTransmitted (istrans : OrderedMap Str Bool) (field : Str) : Prop :=
  field = bytes "type" ∨ field = bytes "application" ∨ istrans.find? field = some true

instance (istrans : OrderedMap Str Bool) : DecidablePred (IsTransmitted istrans) := fun _ =>
  inferInstanceAs (Decidable (_ ∨ _ ∨ _))

/-- The part of a record that leaves a node. -/
def transmitted (kv : OrderedMap Str Str) (istrans : OrderedMap Str Bool) : OrderedMap Str Str :=
  kv.filter fun field => IsTransmitted istrans field.1

theorem find?_transmitted (kv : OrderedMap Str Str) (istrans : OrderedMap Str Bool)
    (field : Str) : (transmitted kv istrans).find? field =
      if IsTransmitted istrans field then kv.find? field else none := by
  rw [transmitted, OrderedMap.find?_filter]
  by_cases leaves : IsTransmitted istrans field
  · rw [if_pos leaves]
    cases kv.find? field with
    | none => rfl
    | some value => exact Option.filter_some_pos (decide_eq_true leaves)
  · rw [if_neg leaves]
    exact Option.filter_eq_none_iff.mpr fun _ _ => mt of_decide_eq_true leaves

/-- The entries of a request are those of the part that leaves the node. -/
theorem values_kv2request (kv : OrderedMap Str Str) (istrans : OrderedMap Str Bool) :
    (DataPreProcess.kv2request kv istrans).values =
      (transmitted kv istrans).entries.map fun field => ⟨field.1, field.2⟩ :=
  rfl

/-- **Transmission.** What is read from a request is the part of the record that leaves the node.
Records that agree there make the same request, and every entry of it comes from there. -/
theorem request2kv_kv2request (kv : OrderedMap Str Str) (istrans : OrderedMap Str Bool) :
    ProcessImpl.request2kv (DataPreProcess.kv2request kv istrans) = transmitted kv istrans ∧
      (∀ other : OrderedMap Str Str,
        (∀ field, IsTransmitted istrans field → kv.find? field = other.find? field) →
          DataPreProcess.kv2request kv istrans = DataPreProcess.kv2request other istrans) ∧
      ∀ entry ∈ (DataPreProcess.kv2request kv istrans).values,
        IsTransmitted istrans entry.key ∧ kv.find? entry.key = some entry.value := by
  refine ⟨?_, fun other agree => ?_, fun entry member => ?_⟩
  · rw [ProcessImpl.request2kv, values_kv2request, List.foldl_map]
    exact OrderedMap.foldl_insertNew_entries _
  · have same : transmitted kv istrans = transmitted other istrans := by
      refine OrderedMap.ext_find? fun field => ?_
      rw [find?_transmitted, find?_transmitted]
      split
      · rename_i leaves
        exact agree field leaves
      · rfl
    rw [TransmitRequest.mk.injEq, values_kv2request, values_kv2request, same]
  · rw [values_kv2request] at member
    obtain ⟨field, kept, rfl⟩ := List.mem_map.mp member
    obtain ⟨present, leaves⟩ := List.mem_filter.mp kept
    exact ⟨of_decide_eq_true leaves, (kv.find?_eq_some_iff ..).mpr present⟩

end LogProcess
