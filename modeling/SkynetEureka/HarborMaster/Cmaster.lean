import SkynetEureka.Seri.PackTheorems

/-!
# The master of the harbors (`cmaster.lua`)

A package is the list of its values; it is sent when `pack_package` accepts it, and read as it was
packed. `slave_node` is a list in the order of `pairs`, and a name that is not in `global_name` has
no address. A function returns what it has written, with the sockets; 0 is no socket. An error is
`none`, for it is caught by `pcall`.
-/

namespace SkynetEureka.HarborMaster

open Function

abbrev Name := List UInt8

/-- The packages from a slave to the master. -/
inductive Request where
  /-- 'H' -/
  | handshake (slaveId : ℕ) (slaveAddr : List UInt8)
  /-- 'R' -/
  | register (name : Name) (address : ℕ)
  /-- 'Q' -/
  | query (name : Name)
deriving DecidableEq

/-- The packages from the master to a slave. -/
inductive Report where
  /-- 'W' -/
  | wait (n : ℕ)
  /-- 'C' -/
  | connect (slaveId : ℕ) (slaveAddr : List UInt8)
  /-- 'N' -/
  | name (globalname : Name) (address : ℕ)
  /-- 'D' -/
  | disconnect (slaveId : ℕ)
deriving DecidableEq

/-- A Lua integer. -/
def number (n : ℕ) : Seri.Value := .integer (Int64.ofNat n)

/-- The values of a package to the master. -/
def Request.values : Request → List Seri.Value
  | .handshake slaveId slaveAddr => [.string [72], number slaveId, .string slaveAddr]
  | .register name address => [.string [82], .string name, number address]
  | .query name => [.string [81], .string name]

/-- The values of a package to a slave. -/
def Report.values : Report → List Seri.Value
  | .wait n => [.string [87], number n]
  | .connect slaveId slaveAddr => [.string [67], number slaveId, .string slaveAddr]
  | .name globalname address => [.string [78], .string globalname, number address]
  | .disconnect slaveId => [.string [68], number slaveId]

/-- The size of a package is one byte. -/
def fits (values : List Seri.Value) : Bool :=
  match Seri.luaseriPack values with
  | .ok (_, size) => size ≤ 255
  | .error _ => false

/-- `pack_package`; `none` is the error "too long". -/
def packPackage {α : Type} (values : α → List Seri.Value) (package : α) : Option α :=
  if fits (values package) then some package else none

/-- An entry of `slave_node` -/
structure SlaveNode where
  id : ℕ
  fd : ℕ
  addr : List UInt8

structure Master where
  slaveNode : List SlaveNode
  globalName : Name → Option ℕ

/-- `report_slave`; a package of a letter and a number always fits. -/
def reportSlave (m : Master) (fd slaveId : ℕ) (slaveAddr : List UInt8) :
    Option (List (ℕ × Report)) :=
  (packPackage Report.values (.connect slaveId slaveAddr)).map fun message =>
    let written := (m.slaveNode.filter fun v => v.fd ≠ 0).map fun v => (v.fd, message)
    written ++ [(fd, .wait written.length)]

/-- `handshake`, for the package that is read -/
def handshake (m : Master) (fd : ℕ) : Request → Option (Master × ℕ × List (ℕ × Report))
  | .handshake slaveId slaveAddr =>
    if slaveId = 0 then none
    else if m.slaveNode.any fun v => v.id = slaveId then none
    else
      (reportSlave m fd slaveId slaveAddr).map fun written =>
        ({ m with slaveNode := m.slaveNode ++ [⟨slaveId, fd, slaveAddr⟩] }, slaveId, written)
  | _ => none

/-- `socket.write` to every slave -/
def writeAll (m : Master) (message : Report) : List (ℕ × Report) :=
  m.slaveNode.map fun v => (v.fd, message)

/-- `dispatch_slave`, for the package that is read -/
def dispatchSlave (m : Master) (fd : ℕ) : Request → Master × Option (List (ℕ × Report))
  | .register name address =>
    let m := if m.globalName name = none then
        { m with globalName := update m.globalName name (some address) }
      else m
    (m, (packPackage Report.values (.name name address)).map (writeAll m))
  | .query name =>
    match m.globalName name with
    | some address =>
      (m, (packPackage Report.values (.name name address)).map fun message => [(fd, message)])
    | none => (m, some [])
  | .handshake .. => (m, some [])

/-- The end of `monitor_slave`: the slave is down. -/
def slaveDown (m : Master) (slaveId : ℕ) : Master × List (ℕ × Report) :=
  let m := { m with
    slaveNode := m.slaveNode.map fun v => if v.id = slaveId then { v with fd := 0 } else v }
  (m, writeAll m (.disconnect slaveId))

/-- The master at its start. -/
def Master.init : Master where
  slaveNode := []
  globalName := fun _ => none

/-! ## What the functions do to the names -/

/-- The names of `m` keep their addresses in `m'`. -/
def Master.Keeps (m m' : Master) : Prop :=
  ∀ name address, m.globalName name = some address → m'.globalName name = some address

/-- Every 'N' carries the address that is recorded. -/
def Master.Announces (m : Master) (written : List (ℕ × Report)) : Prop :=
  ∀ fd name address, (fd, .name name address) ∈ written → m.globalName name = some address

/-- No name of the package is recorded with another address. -/
def Master.Consistent (m : Master) : Request → Prop
  | .register name address => m.globalName name = none ∨ m.globalName name = some address
  | _ => True

instance (m : Master) : (p : Request) → Decidable (m.Consistent p)
  | .register name address => inferInstanceAs
      (Decidable (m.globalName name = none ∨ m.globalName name = some address))
  | .handshake .. | .query _ => inferInstanceAs (Decidable True)

theorem packPackage_eq_some {α : Type} {values : α → List Seri.Value} {p q : α}
    (h : packPackage values p = some q) : q = p := by
  unfold packPackage at h
  split at h
  · exact (Option.some.inj h).symm
  · exact absurd h (by simp)

/-! ## Which packages fit -/

theorem length_encodeInteger_le (v : Int64) : (Seri.encodeInteger v).length ≤ 9 := by
  unfold Seri.encodeInteger
  split_ifs <;> simp

theorem length_encodeString_le {str : List UInt8} (h : str.length < 0x10000) :
    (Seri.encodeString str).length ≤ str.length + 3 := by
  unfold Seri.encodeString
  rw [if_pos h]
  split
  · rw [List.length_cons]
    omega
  · rw [List.length_cons, List.length_append, Lib.length_leBytes]
    omega

/-- A letter, a name of at most 240 bytes and a number fit in a package. -/
theorem fits_name {name : Name} (hname : name.length ≤ 240) (letter : UInt8) (address : ℕ) :
    fits [.string [letter], .string name, number address] = true := by
  have hlegal : ∀ v ∈ [.string [letter], .string name, number address],
      Seri.Value.Legal Seri.maxDepth v := by
    simp only [List.forall_mem_cons, number, Seri.Value.Legal]
    refine ⟨by simp, ?_, trivial, by simp⟩
    omega
  have hbytes : Seri.encodeAll [.string [letter], .string name, number address] =
      some (Seri.encodeString [letter] ++ (Seri.encodeString name ++
        (Seri.encodeInteger (Int64.ofNat address) ++ []))) := rfl
  have hlength : (Seri.encodeString [letter] ++ (Seri.encodeString name ++
      (Seri.encodeInteger (Int64.ofNat address) ++ []))).length ≤ 255 := by
    have hstring := length_encodeString_le (show name.length < 0x10000 by omega)
    have hinteger := length_encodeInteger_le (Int64.ofNat address)
    have hletter : (Seri.encodeString [letter]).length = 2 := rfl
    simp only [List.length_append, List.length_nil, hletter]
    omega
  unfold fits
  obtain ⟨l, _, hl, _, _, _, hpack⟩ | ⟨_, hbig⟩ := Seri.luaseriPack_cases hlegal
  · rw [hpack]
    rw [hbytes] at hl
    cases hl
    exact decide_eq_true hlength
  · exact absurd (hbig _ hbytes) (by omega)

theorem packPackage_register {name : Name} (hname : name.length ≤ 240) (address : ℕ) :
    packPackage Request.values (.register name address) = some (.register name address) :=
  if_pos (fits_name hname 82 address)

variable {m m' : Master} {fd : ℕ} {p : Request} {written : List (ℕ × Report)}

theorem Master.Keeps.refl (m : Master) : m.Keeps m := fun _ _ h => h

theorem handshake_keeps {slaveId : ℕ} (h : handshake m fd p = some (m', slaveId, written)) :
    m'.globalName = m.globalName := by
  unfold handshake at h
  split at h
  · split at h
    · exact absurd h (by simp)
    · split at h
      · exact absurd h (by simp)
      · obtain ⟨_, _, heq⟩ := Option.map_eq_some_iff.mp h
        cases heq
        rfl
  · exact absurd h (by simp)

/-- A handshake announces no name. -/
theorem handshake_announces {slaveId : ℕ} (h : handshake m fd p = some (m', slaveId, written)) :
    m'.Announces written := by
  intro fd' name address hmem
  unfold handshake at h
  split at h
  · split at h
    · exact absurd h (by simp)
    · split at h
      · exact absurd h (by simp)
      · obtain ⟨_, hreport, heq⟩ := Option.map_eq_some_iff.mp h
        cases heq
        obtain ⟨message, hpack, rfl⟩ := Option.map_eq_some_iff.mp hreport
        rw [packPackage_eq_some hpack] at hmem
        simp at hmem
  · exact absurd h (by simp)

theorem dispatchSlave_query (name : Name) : (dispatchSlave m fd (.query name)).1 = m := by
  rw [dispatchSlave]
  cases m.globalName name with
  | some address => rfl
  | none => rfl

theorem dispatchSlave_keeps : m.Keeps (dispatchSlave m fd p).1 := by
  intro name address hname
  cases p with
  | register name' address' =>
    show (if m.globalName name' = none then _ else m : Master).globalName name = some address
    split
    · next hnone =>
      show update m.globalName name' (some address') name = some address
      rw [update_of_ne]
      · exact hname
      · intro heq
        rw [heq, hnone] at hname
        exact absurd hname (by simp)
    · exact hname
  | query name' =>
    rw [dispatchSlave_query]
    exact hname
  | handshake => exact hname

/-- A name that is registered is recorded, with its address unless there is another. -/
theorem dispatchSlave_register {name : Name} {address : ℕ}
    (hok : m.Consistent (.register name address)) :
    (dispatchSlave m fd (.register name address)).1.globalName name = some address := by
  show (if m.globalName name = none then _ else m : Master).globalName name = some address
  split
  · exact update_self ..
  · next hsome => exact hok.resolve_left hsome

/-- What the master announces is what it has recorded. -/
theorem dispatchSlave_announces (hok : m.Consistent p)
    (h : (dispatchSlave m fd p).2 = some written) : (dispatchSlave m fd p).1.Announces written := by
  intro fd' name' address' hmem
  cases p with
  | register name address =>
    have hrecorded := @dispatchSlave_register m fd name address hok
    obtain ⟨message, hpack, rfl⟩ := Option.map_eq_some_iff.mp h
    rw [packPackage_eq_some hpack] at hmem
    obtain ⟨v, _, heq⟩ := List.mem_map.mp hmem
    cases heq
    exact hrecorded
  | query name =>
    rw [dispatchSlave_query]
    rw [dispatchSlave] at h
    cases hname : m.globalName name with
    | some address =>
      rw [hname] at h
      obtain ⟨message, hpack, rfl⟩ := Option.map_eq_some_iff.mp h
      rw [packPackage_eq_some hpack, List.mem_singleton] at hmem
      cases hmem
      exact hname
    | none =>
      rw [hname] at h
      cases h
      exact absurd hmem List.not_mem_nil
  | handshake =>
    cases h
    exact absurd hmem List.not_mem_nil

theorem slaveDown_announces (m : Master) (slaveId : ℕ) :
    (slaveDown m slaveId).1.Announces (slaveDown m slaveId).2 := by
  intro fd name address hmem
  obtain ⟨v, _, heq⟩ := List.mem_map.mp hmem
  cases heq

end SkynetEureka.HarborMaster
