import AuxCommon.Lib.Machine
import AuxCommon.Lib.Search

/-!
# The permissions of a scope

`authz-runtime`, `evaluation/evaluation_runtime.rs`: a token names scopes, and each scope stands for
the permissions that its mappings list and for those of the scopes that they include.
`build_scope_permission_masks` computes the permissions of every scope, as a mask over the indices
of the configured permissions.

- **Tables** (`ScopeTables`). Mappings of one scope are joined; a permission that is not configured
  is dropped; a scope that is only included has no mask of its own.
- **Masks** (`scope_masks_exact`). The walk over the inclusions is `Search.walk`, so cycles and
  unknown scopes are no special case: the mask of a scope is what can be reached.

Of the configuration only the ids of the permissions and the mappings are read.
-/

namespace AuxCommon.Authz

open List LinkedMap

/-! ## Bits -/

def maxPermissions : Nat := 1024

/-- `PermissionBits`: one bit for each permission, in words of 64. -/
structure PermissionBits where
  words : Fin 16 → U64

variable {i : Nat} {bits : PermissionBits}

namespace PermissionBits

/-- `default`. -/
def empty : PermissionBits := ⟨fun _ => 0⟩

/-- `set`. An index beyond the capacity is ignored. -/
def set (bits : PermissionBits) (index : Nat) : PermissionBits :=
  if maxPermissions ≤ index then bits
  else
    { words := fun w =>
        if w.val = index / 64 then bits.words w ||| (1#64 <<< (index % 64)) else bits.words w }

def contains (bits : PermissionBits) (index : Nat) : Bool :=
  if h : index < maxPermissions then
    bits.words ⟨index / 64, Nat.div_lt_of_lt_mul h⟩ &&& (1#64 <<< (index % 64)) ≠ 0
  else false

def unionWith (bits other : PermissionBits) : PermissionBits :=
  ⟨fun w => bits.words w ||| other.words w⟩

theorem and_bit_ne_zero_iff {x : U64} {b : Nat} (hb : b < 64) :
    x &&& (1#64 <<< b) ≠ 0 ↔ x.getLsbD b = true := by
  rw [← BitVec.twoPow_eq, BitVec.and_twoPow]
  have hne : BitVec.twoPow 64 b ≠ 0#64 := by
    intro h
    have := congrArg (BitVec.getLsbD · b) h
    simp [hb] at this
  cases x.getLsbD b <;> simp [hne]

/-- A bit is there when its word has it. -/
theorem contains_iff : bits.contains i = true ↔ ∃ h : i < maxPermissions,
      (bits.words ⟨i / 64, Nat.div_lt_of_lt_mul h⟩).getLsbD (i % 64) = true := by
  unfold contains
  by_cases h : i < maxPermissions
  · rw [dif_pos h, decide_eq_true_eq, and_bit_ne_zero_iff (Nat.mod_lt i (by decide))]
    exact ⟨fun hbit => ⟨h, hbit⟩, fun hbit => hbit.2⟩
  · simp [h]

@[simp] theorem contains_empty (i : Nat) : empty.contains i = false := by
  rw [← Bool.not_eq_true, contains_iff]
  simp [empty]

theorem contains_unionWith {bits other : PermissionBits} :
    (bits.unionWith other).contains i = true ↔ bits.contains i = true ∨ other.contains i = true := by
  simp only [contains_iff, unionWith, BitVec.getLsbD_or, Bool.or_eq_true, exists_or]

theorem contains_set {i j : Nat} (hi : i < maxPermissions) :
    (bits.set i).contains j = true ↔ j = i ∨ bits.contains j = true := by
  rw [set, if_neg (Nat.not_le.mpr hi)]
  simp only [contains_iff]
  by_cases hj : j < maxPermissions
  · by_cases hword : j / 64 = i / 64
    · have hbit : (1#64 <<< (i % 64)).getLsbD (j % 64) = true ↔ j = i := by
        rw [← BitVec.twoPow_eq, BitVec.getLsbD_twoPow, Bool.and_eq_true, decide_eq_true_eq,
          decide_eq_true_eq]
        omega
      simp only [hj, exists_true_left, hword, if_true, BitVec.getLsbD_or, Bool.or_eq_true, hbit]
      exact or_comm
    · have hne : j ≠ i := by rintro rfl; exact hword rfl
      simp [hword, hne]
  · have hne : j ≠ i := by omega
    simp [hj, hne]

end PermissionBits

/-! ## Configuration -/

structure Permission where
  id : String

structure ScopeMappingEntry where
  scope : String
  permissions : List String
  includes : List String

/-- `ValidatedConfigurationModel`, which has no more permissions than bits. -/
structure ValidatedConfigurationModel where
  permissions : List Permission
  scopeMappings : List ScopeMappingEntry
  permissions_le : permissions.length ≤ maxPermissions

/-- `ValidationError::LimitExceeded`. -/
structure LimitExceeded where
  resource : String
  limit : Nat
  actual : Nat

/-- `try_from`, with the limit of the permissions that `validate` checks. -/
def ValidatedConfigurationModel.tryFrom (permissions : List Permission)
    (scopeMappings : List ScopeMappingEntry) :
    Except (List LimitExceeded) ValidatedConfigurationModel :=
  if h : permissions.length ≤ maxPermissions then .ok ⟨permissions, scopeMappings, h⟩
  else .error [⟨"permissions", maxPermissions, permissions.length⟩]

example : (ValidatedConfigurationModel.tryFrom [⟨"read"⟩, ⟨"write"⟩]
    [⟨"reader", ["read"], []⟩, ⟨"admin", ["write"], ["reader"]⟩]).isOk = true := by
  decide

/-- The index of each permission, as `EvaluationRuntime::build` numbers them. -/
def permissionIndex (permissions : List Permission) : LinkedMap String Nat :=
  permissions.zipIdx.foldl (fun index p => index.insert p.1.id p.2) .empty

/-! ## Masks -/

structure ScopeTables where
  direct : LinkedMap String PermissionBits := .empty
  expansions : LinkedMap String (List String) := .empty
  allScopes : List String := []

/-- The permissions of one mapping, added to those of its scope. -/
def addPermissions (index : LinkedMap String Nat) (entry : PermissionBits)
    (permissions : List String) : PermissionBits :=
  permissions.foldl (fun entry id => match index.get? id with
    | some i => entry.set i
    | none => entry) entry

/-- One turn of the loop over the mappings. -/
def addMapping (index : LinkedMap String Nat) (t : ScopeTables) (mapping : ScopeMappingEntry) :
    ScopeTables where
  direct := t.direct.insert mapping.scope
    (addPermissions index ((t.direct.get? mapping.scope).getD .empty) mapping.permissions)
  expansions :=
    if mapping.includes.isEmpty then t.expansions
    else t.expansions.insert mapping.scope
      ((t.expansions.get? mapping.scope).getD [] ++ mapping.includes)
  allScopes := mapping.includes.foldl (fun scopes child => scopes.insert child)
    (t.allScopes.insert mapping.scope)

variable (t : ScopeTables)

def ScopeTables.visit (out : PermissionBits) (scope : String) : PermissionBits :=
  match t.direct.get? scope with
  | some mask => out.unionWith mask
  | none => out

/-- The mask of one root. -/
def ScopeTables.resolve (root : String) : PermissionBits :=
  Search.walk t.expansions t.visit ∅ [root] .empty

/-- `build_scope_permission_masks`. -/
def buildScopePermissionMasks (config : ValidatedConfigurationModel)
    (index : LinkedMap String Nat) : LinkedMap String PermissionBits :=
  let t := config.scopeMappings.foldl (addMapping index) {}
  t.allScopes.foldl (fun resolved root => resolved.insert root (t.resolve root)) .empty

/-! ## The indices of permissions -/

variable {index : LinkedMap String Nat} {id : String} {xs : List (Permission × Nat)}

theorem get?_numbered
    (h : (xs.foldl (fun index p => index.insert p.1.id p.2) index).get? id = some i) :
    (∃ p, (p, i) ∈ xs ∧ p.id = id) ∨ index.get? id = some i := by
  induction xs generalizing index with
  | nil => exact .inr h
  | cons x xs ih =>
    rcases ih h with ⟨p, hp, hid⟩ | h
    · exact .inl ⟨p, mem_cons_of_mem x hp, hid⟩
    · rw [get?_insert] at h
      split at h
      · rename_i hid
        cases h
        exact .inl ⟨x.1, mem_cons_self, hid.symm⟩
      · exact .inr h

theorem isSome_numbered :
    ((xs.foldl (fun index p => index.insert p.1.id p.2) index).get? id).isSome = true ↔
      (∃ x ∈ xs, x.1.id = id) ∨ (index.get? id).isSome = true := by
  induction xs generalizing index with
  | nil => simp
  | cons x xs ih =>
    rw [foldl_cons, ih, get?_insert]
    by_cases hid : id = x.1.id
    · simp [hid]
    · simp [hid, Ne.symm hid]

variable {permissions : List Permission}

/-- An index is that of a permission with the id. -/
theorem permissionIndex_get? (h : (permissionIndex permissions).get? id = some i) :
    permissions[i]?.map Permission.id = some id := by
  rcases get?_numbered h with ⟨p, hp, hid⟩ | h
  · rw [mem_zipIdx_iff_getElem?] at hp
    rw [hp, Option.map_some, hid]
  · cases h

theorem permissionIndex_lt
    (h : (permissionIndex permissions).get? id = some i) : i < permissions.length := by
  obtain ⟨p, hp, -⟩ := Option.map_eq_some_iff.mp (permissionIndex_get? h)
  exact (List.getElem?_eq_some_iff.mp hp).1

/-- Exactly the configured permissions have one. -/
theorem permissionIndex_isSome :
    ((permissionIndex permissions).get? id).isSome = true ↔ ∃ p ∈ permissions, p.id = id := by
  rw [permissionIndex, isSome_numbered, get?_empty, Option.isSome_none]
  simp only [Bool.false_eq_true, or_false, mem_zipIdx_iff_getElem?, Prod.exists]
  simp only [mem_iff_getElem?]
  exact ⟨fun ⟨p, i, hp, hid⟩ => ⟨p, ⟨i, hp⟩, hid⟩, fun ⟨p, ⟨i, hp⟩, hid⟩ => ⟨p, i, hp, hid⟩⟩

/-! ## The tables -/

section Tables

variable {t : ScopeTables} {mappings : List ScopeMappingEntry}

theorem contains_addPermissions (hindex : ∀ id i, index.get? id = some i → i < maxPermissions)
    (permissions : List String) (entry : PermissionBits) (i : Nat) :
    (addPermissions index entry permissions).contains i = true ↔
      entry.contains i = true ∨ ∃ id ∈ permissions, index.get? id = some i := by
  unfold addPermissions
  induction permissions generalizing entry with
  | nil => simp
  | cons id permissions ih =>
    rw [foldl_cons, ih]
    cases hid : index.get? id with
    | none => simp [hid]
    | some k =>
      rw [PermissionBits.contains_set (hindex id k hid)]
      simp only [mem_cons, exists_eq_or_imp, hid, Option.some.injEq]
      tauto

/-- What the tables say of the mappings that were added. -/
structure ScopeTables.Describes (t : ScopeTables) (index : LinkedMap String Nat)
    (mappings : List ScopeMappingEntry) : Prop where
  direct : ∀ s i, ((t.direct.get? s).getD .empty).contains i = true ↔
    ∃ m ∈ mappings, m.scope = s ∧ ∃ id ∈ m.permissions, index.get? id = some i
  expansions : ∀ s w, w ∈ Search.successors t.expansions s ↔
    ∃ m ∈ mappings, m.scope = s ∧ w ∈ m.includes
  scopes : ∀ s, s ∈ t.allScopes ↔ ∃ m ∈ mappings, s = m.scope ∨ s ∈ m.includes

theorem mem_foldl_insert (children scopes : List String) (s : String) :
    s ∈ children.foldl (fun scopes child => scopes.insert child) scopes ↔
      s ∈ scopes ∨ s ∈ children := by
  induction children generalizing scopes with
  | nil => simp
  | cons child children ih =>
    rw [foldl_cons, ih, mem_insert_iff, mem_cons]
    tauto

theorem ScopeTables.Describes.add (h : t.Describes index mappings)
    (hindex : ∀ id i, index.get? id = some i → i < maxPermissions) (m : ScopeMappingEntry) :
    (addMapping index t m).Describes index (mappings ++ [m]) where
  direct s i := by
    simp only [mem_append, mem_singleton, or_and_right, exists_or, exists_eq_left,
      ← h.direct, addMapping, get?_insert]
    by_cases hs : s = m.scope
    · subst hs
      simp [contains_addPermissions hindex]
    · simp [hs, Ne.symm hs]
  expansions s w := by
    simp only [mem_append, mem_singleton, or_and_right, exists_or, exists_eq_left,
      ← h.expansions, addMapping, Search.successors]
    by_cases hincludes : m.includes = []
    · simp [hincludes]
    · by_cases hs : s = m.scope
      · subst hs
        simp [hincludes, get?_insert]
      · simp [hincludes, get?_insert, hs, Ne.symm hs]
  scopes s := by
    simp only [mem_append, mem_singleton, or_and_right, exists_or, exists_eq_left,
      ← h.scopes, addMapping, mem_foldl_insert, mem_insert_iff]
    tauto

theorem ScopeTables.Describes.foldl (hindex : ∀ id i, index.get? id = some i → i < maxPermissions)
    (h : t.Describes index mappings) (more : List ScopeMappingEntry) :
    (more.foldl (addMapping index) t).Describes index (mappings ++ more) := by
  induction more generalizing t mappings with
  | nil => simpa using h
  | cons m more ih =>
    rw [foldl_cons, append_cons]
    exact ih (h.add hindex m)

end Tables

/-! ## The masks -/

theorem contains_visits (order : List String) (out : PermissionBits) (i : Nat) :
    (order.foldl t.visit out).contains i = true ↔
      out.contains i = true ∨ ∃ r ∈ order, ((t.direct.get? r).getD .empty).contains i = true := by
  induction order generalizing out with
  | nil => simp
  | cons r order ih =>
    rw [foldl_cons, ih, ScopeTables.visit]
    cases hr : t.direct.get? r with
    | none => simp [hr]
    | some mask => simp [hr, PermissionBits.contains_unionWith, or_assoc]

theorem get?_resolved (roots : List String) (resolved : LinkedMap String PermissionBits)
    (s : String) :
    (roots.foldl (fun resolved root => resolved.insert root (t.resolve root)) resolved).get? s =
      if s ∈ roots then some (t.resolve s) else resolved.get? s := by
  induction roots generalizing resolved with
  | nil => simp
  | cons root roots ih =>
    rw [foldl_cons, ih, get?_insert]
    by_cases hs : s = root
    · simp [hs]
    · simp [hs]

/-- A scope includes another one. -/
def Includes (mappings : List ScopeMappingEntry) (s w : String) : Prop :=
  ∃ m ∈ mappings, m.scope = s ∧ w ∈ m.includes

/-- A scope stands for the permission: a scope that can be reached lists it, and it is
configured. -/
def Grants (config : ValidatedConfigurationModel) (s id : String) : Prop :=
  (∃ r, Relation.ReflTransGen (Includes config.scopeMappings) s r ∧
    ∃ m ∈ config.scopeMappings, m.scope = r ∧ id ∈ m.permissions) ∧
  ∃ p ∈ config.permissions, p.id = id

theorem ScopeTables.Describes.contains_resolve {t : ScopeTables}
    {mappings : List ScopeMappingEntry} (h : t.Describes index mappings) (s : String) (i : Nat) :
    (t.resolve s).contains i = true ↔ ∃ r, Relation.ReflTransGen (Includes mappings) s r ∧
      ∃ m ∈ mappings, m.scope = r ∧ ∃ id ∈ m.permissions, index.get? id = some i := by
  have hedge : (fun u w => w ∈ Search.successors t.expansions u) = Includes mappings := by
    funext u w
    exact propext (h.expansions u w)
  obtain ⟨order, hwalk, horder⟩ := Search.walk_eq_foldl t.expansions t.visit s .empty
  rw [resolve, hwalk, contains_visits]
  simp only [PermissionBits.contains_empty, Bool.false_eq_true, false_or, horder, Search.Reach,
    hedge, h.direct]

/-- The scopes that occur have a mask, and the bit of a permission is in it when the scope stands
for the permission. -/
theorem scope_masks_exact (config : ValidatedConfigurationModel) (s : String) :
    let index := permissionIndex config.permissions
    let mask := (buildScopePermissionMasks config index).get? s
    (mask.isSome = true ↔ ∃ m ∈ config.scopeMappings, s = m.scope ∨ s ∈ m.includes) ∧
      ∀ id, (∃ i bits, index.get? id = some i ∧ mask = some bits ∧ bits.contains i = true) ↔
        Grants config s id := by
  intro index mask
  have hindex : ∀ id i, index.get? id = some i → i < maxPermissions := fun id i h =>
    (permissionIndex_lt h).trans_le config.permissions_le
  have hinit : ScopeTables.Describes {} index [] := by
    constructor <;> simp [Search.successors]
  have htables := hinit.foldl hindex config.scopeMappings
  rw [nil_append] at htables
  have hmask : mask = if s ∈ (config.scopeMappings.foldl (addMapping index) {}).allScopes then
      some ((config.scopeMappings.foldl (addMapping index) {}).resolve s) else none :=
    get?_resolved _ _ _ _
  generalize config.scopeMappings.foldl (addMapping index) {} = t at htables hmask
  refine ⟨?_, fun id => ⟨?_, ?_⟩⟩
  · rw [hmask, ← htables.scopes]
    split <;> simp [*]
  · rintro ⟨i, bits, hi, hbits, hcontains⟩
    rw [hmask, Option.ite_none_right_eq_some, Option.some.injEq] at hbits
    obtain ⟨-, rfl⟩ := hbits
    obtain ⟨r, hreach, m, hm, hscope, id', hid', hi'⟩ := (htables.contains_resolve s i).mp hcontains
    -- an index belongs to one id
    have hid : id' = id := by
      have := (permissionIndex_get? hi').symm.trans (permissionIndex_get? hi)
      exact Option.some.inj this
    rw [hid] at hid'
    exact ⟨⟨r, hreach, m, hm, hscope, hid'⟩,
      permissionIndex_isSome.mp (Option.isSome_iff_exists.mpr ⟨i, hi⟩)⟩
  · rintro ⟨⟨r, hreach, m, hm, hscope, hid⟩, hconfigured⟩
    obtain ⟨i, hi⟩ := Option.isSome_iff_exists.mp (permissionIndex_isSome.mpr hconfigured)
    -- a scope that leads to a mapping occurs in one
    have hs : s ∈ t.allScopes := by
      rw [htables.scopes]
      rcases hreach.cases_head with rfl | ⟨w, ⟨m', hm', hscope', -⟩, -⟩
      · exact ⟨m, hm, .inl hscope.symm⟩
      · exact ⟨m', hm', .inl hscope'.symm⟩
    refine ⟨i, t.resolve s, hi, by rw [hmask, if_pos hs], ?_⟩
    exact (htables.contains_resolve s i).mpr ⟨r, hreach, m, hm, hscope, id, hid, hi⟩

end AuxCommon.Authz
