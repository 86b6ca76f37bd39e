import Mathlib.Data.List.Nodup
import QuantumResources.Record

/-! Flat forms of nested records.

The flat form has one entry for every value, under the keys that lead to it. If no key has a point
of its own, the joined keys tell the paths apart, so nothing is overwritten and the record can be
recovered from its flat form, except for inner records that are empty. -/

namespace QuantumResources.Record

variable {β : Type}

def keys : Record β → List String
  | .nil => []
  | .leaf key _ rest => key :: rest.keys
  | .branch key _ rest => key :: rest.keys

/-- At every depth the keys are different from each other and have no points. -/
def Keyed : Record β → Prop
  | .nil => True
  | .leaf key _ rest => '.' ∉ key.toList ∧ key ∉ rest.keys ∧ rest.Keyed
  | .branch key inner rest => '.' ∉ key.toList ∧ key ∉ rest.keys ∧ inner.Keyed ∧ rest.Keyed

/-- No inner record is empty. -/
def Filled : Record β → Prop
  | .nil => True
  | .leaf _ _ rest => rest.Filled
  | .branch _ inner rest => inner ≠ .nil ∧ inner.Filled ∧ rest.Filled

/-- Every value with the keys that lead to it, depth first. -/
def leaves : Record β → List (List String × β)
  | .nil => []
  | .leaf key value rest => ([key], value) :: rest.leaves
  | .branch key inner rest =>
    (inner.leaves.map fun leaf => (key :: leaf.1, leaf.2)) ++ rest.leaves

/-- The entry of a value in the flat form. -/
def entry (leaf : List String × β) : String × β := (".".intercalate leaf.1, leaf.2)

/-! ## Paths -/

/-- A path has a key, and no key of it has a point. -/
def IsPath (path : List String) : Prop := path ≠ [] ∧ ∀ key ∈ path, '.' ∉ key.toList

/-- What stands between the points of a key. -/
def parts (key : String) : List String := (key.toList.splitOn '.').map String.ofList

/-- Paths can be read off their joined keys. -/
theorem parts_intercalate {path : List String} (isPath : IsPath path) :
    parts (".".intercalate path) = path := by
  have split : (".".intercalate path).toList.splitOn '.' = path.map String.toList := by
    rw [String.toList_intercalate]
    refine List.splitOn_intercalate '.' ?_ (by simpa using isPath.1)
    intro chars member
    obtain ⟨key, isKey, rfl⟩ := List.mem_map.mp member
    exact isPath.2 key isKey
  rw [parts, split, List.map_map]
  exact (List.map_congr_left fun key _ => String.ofList_toList).trans (List.map_id path)

theorem mem_leaves_branch {key : String} {inner rest : Record β} {path : List String} {value : β} :
    (path, value) ∈ (branch key inner rest).leaves ↔
      (∃ later, path = key :: later ∧ (later, value) ∈ inner.leaves) ∨
        (path, value) ∈ rest.leaves := by
  rw [leaves, List.mem_append, List.mem_map]
  refine or_congr_left ⟨?_, ?_⟩
  · rintro ⟨⟨later, _⟩, member, same⟩
    cases same
    exact ⟨later, rfl, member⟩
  · rintro ⟨later, rfl, member⟩
    exact ⟨(later, value), member, rfl⟩

theorem exists_key {record : Record β} {path : List String} {value : β}
    (member : (path, value) ∈ record.leaves) :
    ∃ key ∈ record.keys, ∃ later, path = key :: later := by
  induction record with
  | nil => cases member
  | leaf key value rest ih =>
    rcases List.mem_cons.mp member with same | later
    · cases same
      exact ⟨key, by simp [keys], [], rfl⟩
    · obtain ⟨other, isKey, found⟩ := ih later
      exact ⟨other, List.mem_cons_of_mem _ isKey, found⟩
  | branch key inner rest _ ih =>
    rcases mem_leaves_branch.mp member with ⟨path, rfl, _⟩ | later
    · exact ⟨key, by simp [keys], path, rfl⟩
    · obtain ⟨other, isKey, found⟩ := ih later
      exact ⟨other, List.mem_cons_of_mem _ isKey, found⟩

theorem path_notMem_leaves {key : String} {rest : Record β} (absent : key ∉ rest.keys)
    (later : List String) (value : β) : (key :: later, value) ∉ rest.leaves := by
  intro member
  obtain ⟨other, isKey, _, same⟩ := exists_key member
  cases same
  exact absent isKey

theorem Keyed.isPath {record : Record β} (keyed : record.Keyed) {path : List String} {value : β}
    (member : (path, value) ∈ record.leaves) : IsPath path := by
  induction record generalizing path with
  | nil => cases member
  | leaf key value rest ih =>
    rcases List.mem_cons.mp member with same | later
    · cases same
      exact ⟨by simp, by simpa using keyed.1⟩
    · exact ih keyed.2.2 later
  | branch key inner rest innerIh ih =>
    rcases mem_leaves_branch.mp member with ⟨path, rfl, inside⟩ | later
    · exact ⟨by simp, List.forall_mem_cons.mpr ⟨keyed.1, (innerIh keyed.2.2.1 inside).2⟩⟩
    · exact ih keyed.2.2.2 later

/-- No path leads to two values. -/
theorem Keyed.nodup_paths {record : Record β} (keyed : record.Keyed) :
    (record.leaves.map (·.1)).Nodup := by
  have apart : ∀ {key : String} {rest : Record β} {later : List String}, key ∉ rest.keys →
      key :: later ∉ rest.leaves.map (·.1) := by
    intro key rest later absent member
    obtain ⟨⟨_, value⟩, isLeaf, rfl⟩ := List.mem_map.mp member
    exact path_notMem_leaves absent later value isLeaf
  induction record with
  | nil => exact List.nodup_nil
  | leaf key value rest ih =>
    rw [leaves, List.map_cons, List.nodup_cons]
    exact ⟨apart keyed.2.1, ih keyed.2.2⟩
  | branch key inner rest innerIh ih =>
    rw [leaves, List.map_append, List.nodup_append, List.map_map]
    have shifted : inner.leaves.map ((·.1) ∘ fun leaf => (key :: leaf.1, leaf.2)) =
        (inner.leaves.map (·.1)).map (key :: ·) := by
      rw [List.map_map]
      rfl
    rw [shifted]
    refine ⟨(innerIh keyed.2.2.1).map fun _ _ => List.tail_eq_of_cons_eq, ih keyed.2.2.2, ?_⟩
    rintro path inside other outside rfl
    obtain ⟨later, _, rfl⟩ := List.mem_map.mp inside
    exact apart keyed.2.1 outside

/-- No key of the flat form stands for two values. -/
theorem Keyed.nodup_entries {record : Record β} (keyed : record.Keyed) :
    ((record.leaves.map entry).map (·.1)).Nodup := by
  have joined : (record.leaves.map entry).map (·.1) =
      (record.leaves.map (·.1)).map ".".intercalate := by
    rw [List.map_map, List.map_map]
    rfl
  rw [joined]
  refine keyed.nodup_paths.map_on fun first isFirst second isSecond same => ?_
  obtain ⟨leaf, isLeaf, rfl⟩ := List.mem_map.mp isFirst
  obtain ⟨other, isOther, rfl⟩ := List.mem_map.mp isSecond
  rw [← parts_intercalate (keyed.isPath isLeaf), same, parts_intercalate (keyed.isPath isOther)]

/-! ## Collecting -/

def putAll (entries found : List (String × β)) : List (String × β) :=
  entries.foldl (fun all entry => put entry.1 entry.2 all) found

theorem put_new {key : String} {value : β} {found : List (String × β)}
    (absent : key ∉ found.map (·.1)) : put key value found = found ++ [(key, value)] := by
  induction found with
  | nil => rfl
  | cons entry rest ih =>
    rw [List.map_cons, List.mem_cons, not_or] at absent
    rw [put, if_neg (Ne.symm absent.1), ih absent.2, List.cons_append]

theorem putAll_new {entries found : List (String × β)}
    (nodup : ((found ++ entries).map (·.1)).Nodup) : putAll entries found = found ++ entries := by
  induction entries generalizing found with
  | nil => exact (List.append_nil found).symm
  | cons entry rest ih =>
    have moved : found ++ entry :: rest = (found ++ [entry]) ++ rest := by simp
    have absent : entry.1 ∉ found.map (·.1) := by
      rw [List.map_append, List.nodup_append] at nodup
      exact fun member => nodup.2.2 _ member _ (by simp) rfl
    rw [moved] at nodup ⊢
    rw [← ih nodup, ← put_new absent]
    rfl

theorem Keyed.under_entry {inner : Record β} (keyed : inner.Keyed) (key : String) :
    (inner.leaves.map entry).map (under key) =
      (inner.leaves.map fun leaf => (key :: leaf.1, leaf.2)).map entry := by
  rw [List.map_map, List.map_map]
  refine List.map_congr_left fun leaf member => Prod.ext ?_ rfl
  exact (String.intercalate_cons_of_ne_nil (keyed.isPath member).1).symm

theorem Keyed.collect_eq {record : Record β} (keyed : record.Keyed) (found : List (String × β)) :
    collect record found = putAll (record.leaves.map entry) found := by
  induction record generalizing found with
  | nil => rfl
  | leaf key value rest ih => exact ih keyed.2.2 (put key value found)
  | branch key inner rest innerIh ih =>
    have entries : collect inner [] = inner.leaves.map entry :=
      (innerIh keyed.2.2.1 []).trans (putAll_new keyed.2.2.1.nodup_entries)
    rw [collect, entries, keyed.2.2.1.under_entry, ih keyed.2.2.2, leaves, List.map_append, putAll,
      putAll, List.foldl_append]

theorem Keyed.flatten_eq {record : Record β} (keyed : record.Keyed) :
    record.flatten = record.leaves.map entry :=
  (keyed.collect_eq []).trans (putAll_new keyed.nodup_entries)

/-! ## Recovering -/

theorem Keyed.leaves_eq {record : Record β} (keyed : record.Keyed) :
    record.leaves = record.flatten.map fun entry => (parts entry.1, entry.2) := by
  rw [keyed.flatten_eq, List.map_map]
  refine (List.map_id _).symm.trans (List.map_congr_left fun leaf member => ?_)
  exact Prod.ext (parts_intercalate (keyed.isPath member)).symm rfl

theorem Filled.exists_leaf {record : Record β} (filled : record.Filled) (nonempty : record ≠ .nil) :
    ∃ first more, record.leaves = first :: more := by
  induction record with
  | nil => exact absurd rfl nonempty
  | leaf key value rest => exact ⟨_, _, rfl⟩
  | branch key inner rest ih =>
    obtain ⟨first, more, isFirst⟩ := ih filled.2.1 filled.1
    rw [leaves, isFirst]
    exact ⟨_, _, rfl⟩

/-- A first key tells the values of an inner record from those behind it. -/
theorem leaves_branch_apart {key : String} {rest : Record β} (absent : key ∉ rest.keys)
    (inner : Record β) :
    (branch key inner rest).leaves.filter (·.1.head? = some key) =
        inner.leaves.map (fun leaf => (key :: leaf.1, leaf.2)) ∧
      (branch key inner rest).leaves.filter (·.1.head? ≠ some key) = rest.leaves := by
  have outside : ∀ leaf ∈ rest.leaves, leaf.1.head? ≠ some key := by
    rintro ⟨path, value⟩ member same
    obtain ⟨later, rfl⟩ := List.head?_eq_some_iff.mp same
    exact path_notMem_leaves absent later value member
  have inside : ∀ leaf ∈ inner.leaves.map (fun leaf => (key :: leaf.1, leaf.2)),
      leaf.1.head? = some key := by
    intro leaf member
    obtain ⟨_, _, rfl⟩ := List.mem_map.mp member
    rfl
  rw [leaves, List.filter_append, List.filter_append]
  constructor
  · rw [List.filter_eq_self.mpr (by simpa using inside),
      List.filter_eq_nil_iff.mpr (by simpa using outside), List.append_nil]
  · rw [List.filter_eq_nil_iff.mpr (by simpa using inside),
      List.filter_eq_self.mpr (by simpa using outside), List.nil_append]

theorem leaf_leaves_ne_branch {key other : String} {value : β} {rest inner later : Record β}
    (filled : (branch other inner later).Filled) :
    (leaf key value rest).leaves ≠ (branch other inner later).leaves := by
  intro same
  obtain ⟨⟨path, first⟩, more, isFirst⟩ := filled.2.1.exists_leaf filled.1
  have member : (path, first) ∈ inner.leaves := by simp [isFirst]
  obtain ⟨_, _, _, longer⟩ := exists_key member
  rw [leaves, leaves, isFirst, List.map_cons, List.cons_append] at same
  simp [longer] at same

/-- Records are determined by their values in order, with the paths to them. -/
theorem leaves_injective {record other : Record β} (keyed : record.Keyed) (alsoKeyed : other.Keyed)
    (filled : record.Filled) (alsoFilled : other.Filled) (same : record.leaves = other.leaves) :
    record = other := by
  induction record generalizing other with
  | nil =>
    by_contra different
    obtain ⟨first, more, isFirst⟩ := alsoFilled.exists_leaf (Ne.symm different)
    rw [isFirst] at same
    cases same
  | leaf key value rest ih =>
    cases other with
    | nil => cases same
    | leaf otherKey otherValue otherRest =>
      obtain ⟨first, later⟩ := List.cons.inj same
      cases first
      rw [ih keyed.2.2 alsoKeyed.2.2 filled alsoFilled later]
    | branch => exact absurd same (leaf_leaves_ne_branch alsoFilled)
  | branch key inner rest innerIh ih =>
    obtain ⟨first, more, isFirst⟩ := filled.2.1.exists_leaf filled.1
    cases other with
    | nil =>
      obtain ⟨_, _, isLeaf⟩ := filled.exists_leaf (by simp)
      rw [isLeaf] at same
      cases same
    | leaf => exact absurd same.symm (leaf_leaves_ne_branch filled)
    | branch otherKey otherInner otherRest =>
      obtain ⟨otherFirst, otherMore, isOtherFirst⟩ := alsoFilled.2.1.exists_leaf alsoFilled.1
      have sameKey : key = otherKey := by
        rw [leaves, leaves, isFirst, isOtherFirst, List.map_cons, List.map_cons] at same
        have heads := (Prod.mk.inj (List.cons.inj same).1).1
        exact (List.cons.inj heads).1
      subst sameKey
      obtain ⟨inside, outside⟩ := leaves_branch_apart keyed.2.1 inner
      obtain ⟨otherInside, otherOutside⟩ := leaves_branch_apart alsoKeyed.2.1 otherInner
      rw [same, otherInside] at inside
      rw [same, otherOutside] at outside
      have shift : Function.Injective fun leaf : List String × β => (key :: leaf.1, leaf.2) := by
        rintro ⟨path, value⟩ ⟨later, other⟩ equal
        cases equal
        rfl
      rw [innerIh keyed.2.2.1 alsoKeyed.2.2.1 filled.2.1 alsoFilled.2.1
          (List.map_injective_iff.mpr shift inside.symm),
        ih keyed.2.2.2 alsoKeyed.2.2.2 filled.2.2 alsoFilled.2.2 outside.symm]

/-! ## Records in any order -/

/-- What a key holds. -/
def field? (key : String) : Record β → Option (Field β)
  | .nil => none
  | .leaf other value rest => if other = key then some (.value value) else rest.field? key
  | .branch other inner rest => if other = key then some (.record inner) else rest.field? key

/-- Every field of a record stands somewhere in another one, and so at every depth. -/
def Within : Record β → Record β → Prop
  | .nil, _ => True
  | .leaf key value rest, other => other.field? key = some (.value value) ∧ rest.Within other
  | .branch key inner rest, other =>
    (∃ found, other.field? key = some (.record found) ∧ inner.Within found) ∧ rest.Within other

/-- Two records differ at most in the order of their fields. -/
def Same (record other : Record β) : Prop := record.Within other ∧ other.Within record

theorem Keyed.of_field? {key : String} {record inner : Record β} (keyed : record.Keyed)
    (found : record.field? key = some (.record inner)) : inner.Keyed := by
  induction record with
  | nil => cases found
  | leaf other value rest ih =>
    rw [field?] at found
    split at found
    · cases found
    · exact ih keyed.2.2 found
  | branch other held rest _ ih =>
    rw [field?] at found
    split at found
    · cases found
      exact keyed.2.2.1
    · exact ih keyed.2.2.2 found

/-- Values are found by following the keys of their paths. -/
theorem Keyed.mem_leaves_iff {record : Record β} (keyed : record.Keyed) {key : String}
    {later : List String} {value : β} :
    (key :: later, value) ∈ record.leaves ↔
      later = [] ∧ record.field? key = some (.value value) ∨
        ∃ inner, record.field? key = some (.record inner) ∧ (later, value) ∈ inner.leaves := by
  induction record with
  | nil => simp [leaves, field?]
  | leaf other held rest ih =>
    rw [leaves, List.mem_cons, field?]
    by_cases here : other = key
    · subst here
      simp [path_notMem_leaves keyed.2.1, eq_comm]
    · rw [if_neg here]
      exact Iff.trans (by simp [Ne.symm here]) (ih keyed.2.2)
  | branch other held rest _ ih =>
    rw [mem_leaves_branch, field?]
    by_cases here : other = key
    · subst here
      simp [path_notMem_leaves keyed.2.1]
    · rw [if_neg here]
      exact Iff.trans (by simp [Ne.symm here]) (ih keyed.2.2.2)

theorem within_iff {record other : Record β} (filled : record.Filled) (keyed : other.Keyed) :
    record.Within other ↔ record.leaves ⊆ other.leaves := by
  induction record generalizing other with
  | nil => simp [Within, leaves]
  | leaf key value rest ih =>
    rw [Within, leaves, List.cons_subset, ih filled keyed, keyed.mem_leaves_iff]
    refine and_congr_left fun _ => ⟨fun found => .inl ⟨rfl, found⟩, ?_⟩
    rintro (⟨_, found⟩ | ⟨inner, _, impossible⟩)
    · exact found
    · obtain ⟨_, _, _, empty⟩ := exists_key impossible
      cases empty
  | branch key inner rest innerIh ih =>
    rw [Within, leaves, List.append_subset, ih filled.2.2 keyed]
    refine and_congr_left fun _ => ⟨?_, ?_⟩
    · rintro ⟨found, isFound, within⟩ leaf member
      obtain ⟨held, isHeld, rfl⟩ := List.mem_map.mp member
      rw [innerIh filled.2.1 (keyed.of_field? isFound)] at within
      exact keyed.mem_leaves_iff.mpr (.inr ⟨found, isFound, within isHeld⟩)
    · intro included
      have follow : ∀ leaf ∈ inner.leaves, ∃ found, other.field? key = some (.record found) ∧
          leaf ∈ found.leaves := by
        rintro ⟨path, value⟩ isLeaf
        obtain ⟨_, _, later, rfl⟩ := exists_key isLeaf
        rcases keyed.mem_leaves_iff.mp (included (List.mem_map_of_mem isLeaf)) with
          ⟨impossible, _⟩ | found
        · cases impossible
        · exact found
      obtain ⟨first, more, isFirst⟩ := filled.2.1.exists_leaf filled.1
      obtain ⟨found, isFound, _⟩ := follow first (by simp [isFirst])
      refine ⟨found, isFound, (innerIh filled.2.1 (keyed.of_field? isFound)).mpr ?_⟩
      intro leaf isLeaf
      obtain ⟨again, isAgain, member⟩ := follow leaf isLeaf
      rw [isFound] at isAgain
      cases isAgain
      exact member

theorem same_iff {record other : Record β} (keyed : record.Keyed) (alsoKeyed : other.Keyed)
    (filled : record.Filled) (alsoFilled : other.Filled) :
    record.Same other ↔ record.flatten.Perm other.flatten := by
  have nodup : ∀ {record : Record β}, record.Keyed → record.flatten.Nodup := by
    intro record keyed
    rw [keyed.flatten_eq]
    exact keyed.nodup_entries.of_map
  have included : ∀ {record other : Record β}, record.Keyed → other.Keyed →
      (record.flatten ⊆ other.flatten ↔ record.leaves ⊆ other.leaves) := by
    intro record other keyed alsoKeyed
    constructor
    · intro subset
      rw [keyed.leaves_eq, alsoKeyed.leaves_eq]
      exact List.map_subset _ subset
    · intro subset
      rw [keyed.flatten_eq, alsoKeyed.flatten_eq]
      exact List.map_subset _ subset
  rw [Same, within_iff filled alsoKeyed, within_iff alsoFilled keyed, ← included keyed alsoKeyed,
    ← included alsoKeyed keyed, List.perm_ext_iff_of_nodup (nodup keyed) (nodup alsoKeyed)]
  exact ⟨fun both entry => ⟨fun member => both.1 member, fun member => both.2 member⟩,
    fun same => ⟨fun entry => (same entry).mp, fun entry => (same entry).mpr⟩⟩

/-! ## Flat records -/

/-- A record that holds values only. -/
def ofValues (entries : List (String × β)) : Record β :=
  ofFields (entries.map fun entry => (entry.1, .value entry.2))

theorem collect_ofValues (entries found : List (String × β)) :
    collect (ofValues entries) found = putAll entries found := by
  induction entries generalizing found with
  | nil => rfl
  | cons entry rest ih => exact ih (put entry.1 entry.2 found)

theorem Keyed.flatten_twice {record : Record β} (keyed : record.Keyed) :
    (ofValues record.flatten).flatten = record.flatten := by
  rw [keyed.flatten_eq, flatten, collect_ofValues]
  exact putAll_new keyed.nodup_entries

/-- The flat form of a record with keys that have no points is the list of its values, depth first,
each under its path joined by points, and no key stands twice. It is its own flat form. Records
without empty inner records are equal if their flat forms are, and differ at most in the order of
their fields if their flat forms differ at most in the order of their entries. -/
theorem flatten_faithful {record : Record β} (keyed : record.Keyed) :
    record.flatten = record.leaves.map (fun leaf => (".".intercalate leaf.1, leaf.2)) ∧
      (record.flatten.map (·.1)).Nodup ∧
      (ofValues record.flatten).flatten = record.flatten ∧
      ∀ other : Record β, other.Keyed → record.Filled → other.Filled →
        (record.flatten = other.flatten ↔ record = other) ∧
          (record.flatten.Perm other.flatten ↔ record.Same other) := by
  refine ⟨keyed.flatten_eq, ?_, keyed.flatten_twice, ?_⟩
  · rw [keyed.flatten_eq]
    exact keyed.nodup_entries
  · intro other alsoKeyed filled alsoFilled
    refine ⟨⟨fun same => ?_, congrArg flatten⟩, (same_iff keyed alsoKeyed filled alsoFilled).symm⟩
    apply leaves_injective keyed alsoKeyed filled alsoFilled
    rw [keyed.leaves_eq, alsoKeyed.leaves_eq, same]

/-- A key is empty and another one stands at two depths; the fields of the second record stand in
the opposite order. -/
theorem flatten_faithful_reordered :
    ∃ record moved : Record Nat,
      record = .branch "a" (.branch "b" (.leaf "" 1 .nil) (.leaf "c" 2 .nil)) (.leaf "c" 3 .nil) ∧
      moved = .leaf "c" 3 (.branch "a" (.leaf "c" 2 (.branch "b" (.leaf "" 1 .nil) .nil)) .nil) ∧
      (record.Keyed ∧ moved.Keyed ∧ record.Filled ∧ moved.Filled) ∧
      record.flatten = [("a.b.", 1), ("a.c", 2), ("c", 3)] ∧ record.flatten ≠ moved.flatten ∧
      record.flatten.Perm moved.flatten := by
  refine ⟨_, _, rfl, rfl, (and_iff_left_of_imp ?_).mpr (by simp [Keyed, keys, Filled])⟩
  rintro ⟨keyed, alsoKeyed, filled, alsoFilled⟩
  obtain ⟨isFlat, _, _, recovered⟩ := flatten_faithful keyed
  obtain ⟨ordered, unordered⟩ := recovered _ alsoKeyed filled alsoFilled
  refine ⟨isFlat, fun same => ?_, unordered.mpr (by simp [Same, Within, field?])⟩
  cases ordered.mp same

end QuantumResources.Record
