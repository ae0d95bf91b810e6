import HyperFaaS.ControlPlane.Etcd

/-!
The keys of the store in etcd. Users, functions and the platform configuration have
keys of their own, a key gives back the ids it was made of, and a range read finds the
keys of its kind and no others.
-/

namespace HyperFaaS.ControlPlane.Etcd

variable {root : Key} {u u' f f' : UInt64}

theorem users_text : "/users/".toList = ['/', 'u', 's', 'e', 'r', 's', '/'] := rfl

theorem functions_text :
    "/functions/".toList = ['/', 'f', 'u', 'n', 'c', 't', 'i', 'o', 'n', 's', '/'] := rfl

theorem config_text : "/config/platform".toList =
    ['/', 'c', 'o', 'n', 'f', 'i', 'g', '/', 'p', 'l', 'a', 't', 'f', 'o', 'r', 'm'] := rfl

theorem digitChar_ne_slash : ∀ d, d < 10 → Lib.digitChar d ≠ '/' := by decide

theorem slash_notMem_decimal (n : Nat) : '/' ∉ Lib.decimal n := by
  intro hmem
  obtain ⟨d, hd, he⟩ := Lib.decimal_digit hmem
  exact digitChar_ne_slash d hd he.symm

theorem decimal_toNat_injective (h : Lib.decimal u.toNat = Lib.decimal u'.toNat) : u = u' :=
  UInt64.toNat_inj.mp (Lib.decimal_injective h)

theorem parseUint_decimal (u : UInt64) : parseUint (Lib.decimal u.toNat) = some u := by
  simp [parseUint, Lib.parse_decimal, u.toNat_lt]

/-! ## Keys differ -/

theorem userKey_inj : userKey root u = userKey root u' ↔ u = u' := by
  refine ⟨fun h => decimal_toNat_injective ?_, fun h => h ▸ rfl⟩
  exact List.append_cancel_left h

/-- Up to a separator that the first parts do not hold, two texts agree. -/
theorem eq_of_append_slash {xs xs' ys ys' : List Char} (hx : '/' ∉ xs) (hx' : '/' ∉ xs')
    (h : xs ++ '/' :: ys = xs' ++ '/' :: ys') : xs = xs' ∧ ys = ys' := by
  induction xs generalizing xs' with
  | nil =>
    cases xs' with
    | nil => simpa using h
    | cons c cs =>
      simp only [List.nil_append, List.cons_append, List.cons.injEq] at h
      exact absurd (h.1 ▸ List.mem_cons_self) hx'
  | cons c cs ih =>
    cases xs' with
    | nil =>
      simp only [List.nil_append, List.cons_append, List.cons.injEq] at h
      exact absurd (h.1 ▸ List.mem_cons_self) hx
    | cons c' cs' =>
      simp only [List.cons_append, List.cons.injEq] at h
      obtain ⟨rfl, hrest⟩ := h
      obtain ⟨rfl, hys⟩ := ih (fun hm => hx (List.mem_cons_of_mem c hm))
        (fun hm => hx' (List.mem_cons_of_mem c hm)) hrest
      exact ⟨rfl, hys⟩

theorem functionKey_eq (root : Key) (u f : UInt64) : functionKey root u f =
    functionsPrefix root ++ (Lib.decimal u.toNat ++ '/' :: Lib.decimal f.toNat) := by
  simp [functionKey, functionPrefix]

theorem functionKey_inj : functionKey root u f = functionKey root u' f' ↔ u = u' ∧ f = f' := by
  refine ⟨fun h => ?_, fun h => h.1 ▸ h.2 ▸ rfl⟩
  rw [functionKey_eq, functionKey_eq] at h
  obtain ⟨hu, hf⟩ := eq_of_append_slash (slash_notMem_decimal _) (slash_notMem_decimal _)
    (List.append_cancel_left h)
  exact ⟨decimal_toNat_injective hu, decimal_toNat_injective hf⟩

theorem userKey_ne_functionKey : userKey root u ≠ functionKey root u' f := by
  rw [functionKey_eq, userKey, usersPrefix, functionsPrefix, users_text, functions_text]
  simp

theorem userKey_ne_config : userKey root u ≠ platformConfigKey root := by
  rw [userKey, usersPrefix, platformConfigKey, users_text, config_text]
  simp

theorem functionKey_ne_config : functionKey root u f ≠ platformConfigKey root := by
  rw [functionKey_eq, functionsPrefix, platformConfigKey, functions_text, config_text]
  simp

/-! ## Ranges -/

theorem usersPrefix_userKey : (usersPrefix root).isPrefixOf (userKey root u) = true := by
  simp [userKey]

theorem usersPrefix_functionKey : (usersPrefix root).isPrefixOf (functionKey root u f) = false := by
  rw [functionKey_eq, usersPrefix, functionsPrefix, users_text, functions_text]
  simp [List.isPrefixOf_iff_prefix, ← Bool.not_eq_true]

theorem usersPrefix_config :
    (usersPrefix root).isPrefixOf (platformConfigKey root) = false := by
  rw [usersPrefix, platformConfigKey, users_text, config_text]
  simp [List.isPrefixOf_iff_prefix, ← Bool.not_eq_true]

theorem functionsPrefix_functionKey :
    (functionsPrefix root).isPrefixOf (functionKey root u f) = true := by
  rw [functionKey_eq]
  simp

theorem functionsPrefix_userKey : (functionsPrefix root).isPrefixOf (userKey root u) = false := by
  rw [userKey, usersPrefix, functionsPrefix, users_text, functions_text]
  simp [List.isPrefixOf_iff_prefix, ← Bool.not_eq_true]

theorem functionsPrefix_config :
    (functionsPrefix root).isPrefixOf (platformConfigKey root) = false := by
  rw [functionsPrefix, platformConfigKey, functions_text, config_text]
  simp [List.isPrefixOf_iff_prefix, ← Bool.not_eq_true]

theorem functionPrefix_functionKey :
    (functionPrefix root u).isPrefixOf (functionKey root u' f) = true ↔ u = u' := by
  rw [List.isPrefixOf_iff_prefix]
  constructor
  · rintro ⟨rest, hrest⟩
    rw [functionKey_eq, functionPrefix, List.append_assoc, List.append_assoc] at hrest
    have hparts := List.append_cancel_left hrest
    simp only [List.cons_append, List.nil_append] at hparts
    exact decimal_toNat_injective
      (eq_of_append_slash (slash_notMem_decimal _) (slash_notMem_decimal _) hparts).1
  · rintro rfl
    exact List.prefix_append _ _

theorem functionPrefix_userKey : (functionPrefix root u).isPrefixOf (userKey root u') = false := by
  rw [userKey, usersPrefix, functionPrefix, functionsPrefix, users_text, functions_text]
  simp [List.isPrefixOf_iff_prefix, ← Bool.not_eq_true]

theorem functionPrefix_config :
    (functionPrefix root u).isPrefixOf (platformConfigKey root) = false := by
  rw [platformConfigKey, functionPrefix, functionsPrefix, config_text, functions_text]
  simp [List.isPrefixOf_iff_prefix, ← Bool.not_eq_true]

/-! ## Reading keys -/

theorem parseFunctionKey_functionKey : parseFunctionKey (functionKey root u f) root = some (u, f) := by
  have htrim : trimPrefix (functionKey root u f) (functionsPrefix root) =
      Lib.decimal u.toNat ++ '/' :: Lib.decimal f.toNat := by
    rw [trimPrefix, if_pos functionsPrefix_functionKey, functionKey_eq, List.drop_left]
  rw [parseFunctionKey, htrim, Lib.split_join _ _ _ (slash_notMem_decimal _),
    Lib.split_single _ _ (slash_notMem_decimal _)]
  simp only [parseUint_decimal]

theorem parseTrailingID_userKey : parseTrailingID (userKey root u) = some u := by
  have hkey : userKey root u =
      (root ++ ['/', 'u', 's', 'e', 'r', 's']) ++ '/' :: Lib.decimal u.toNat := by
    simp [userKey, usersPrefix]
  rw [parseTrailingID, hkey, Lib.getLast_split _ _ _ (slash_notMem_decimal _)]
  exact parseUint_decimal u

/-- **The key codec.** Keys are read back, keys of different users or functions differ, and
the range of one user holds no function of another. -/
theorem key_codec (root : Key) (u u' f f' : UInt64) :
    parseFunctionKey (functionKey root u f) root = some (u, f) ∧
      parseTrailingID (userKey root u) = some u ∧
      (functionKey root u f = functionKey root u' f' ↔ u = u' ∧ f = f') ∧
      (userKey root u = userKey root u' ↔ u = u') ∧
      userKey root u ≠ functionKey root u' f' ∧
      ((functionPrefix root u).isPrefixOf (functionKey root u' f') = true ↔ u' = u) := by
  refine ⟨parseFunctionKey_functionKey, parseTrailingID_userKey, functionKey_inj, userKey_inj,
    userKey_ne_functionKey, ?_⟩
  rw [functionPrefix_functionKey, eq_comm]

end HyperFaaS.ControlPlane.Etcd
