import Mathlib

/-!
# Numbers as bytes, readers and writers

* `leBytes k n` and `ofLeBytes`: the `k` low bytes of a number, lowest first, and back;
* `Reads`: a reader that consumes exactly the given bytes and returns a value;
* `Writes`: a writer that appends the given bytes to what it has written, as long as all stays
  below a limit.

A format round-trips when its writer writes the bytes that its reader reads; both notions
compose along `>>=`, so that a proof follows the two programs step by step.
-/

namespace SkynetEureka.Lib

/-! ## Little-endian numbers -/

/-- The `k` low bytes of `n`, lowest first. -/
def leBytes : ℕ → ℕ → List UInt8
  | 0, _ => []
  | k + 1, n => UInt8.ofNat n :: leBytes k (n / 256)

/-- The number with the given bytes, lowest first. -/
def ofLeBytes : List UInt8 → ℕ
  | [] => 0
  | b :: bs => b.toNat + 256 * ofLeBytes bs

@[simp] theorem length_leBytes : ∀ k n, (leBytes k n).length = k
  | 0, _ => rfl
  | k + 1, n => by rw [leBytes, List.length_cons, length_leBytes k]

theorem ofLeBytes_leBytes : ∀ k n, ofLeBytes (leBytes k n) = n % 256 ^ k
  | 0, n => by rw [leBytes, ofLeBytes, Nat.pow_zero, Nat.mod_one]
  | k + 1, n => by
    rw [leBytes, ofLeBytes, ofLeBytes_leBytes k, pow_succ', Nat.mod_mul, UInt8.toNat_ofNat']

/-- Bytes that hold a number read back as that number. -/
theorem ofLeBytes_leBytes_of_lt {k n : ℕ} (h : n < 256 ^ k) : ofLeBytes (leBytes k n) = n := by
  rw [ofLeBytes_leBytes, Nat.mod_eq_of_lt h]

/-- The low bytes and the high bytes. -/
theorem leBytes_add (k m n : ℕ) : leBytes (k + m) n = leBytes k n ++ leBytes m (n / 256 ^ k) := by
  induction k generalizing n with
  | zero => rw [Nat.zero_add, leBytes, List.nil_append, Nat.pow_zero, Nat.div_one]
  | succ k ih =>
    rw [Nat.add_right_comm, leBytes, leBytes, ih, List.cons_append, Nat.div_div_eq_div_mul, pow_succ']

theorem ofLeBytes_lt : ∀ l : List UInt8, ofLeBytes l < 256 ^ l.length
  | [] => by simp [ofLeBytes]
  | b :: bs => by
    have hb := b.toNat_lt
    have := ofLeBytes_lt bs
    rw [ofLeBytes, List.length_cons, pow_succ']
    omega

/-! ## Results -/

theorem except_ok_bind {ε α β : Type} (a : α) (f : α → Except ε β) :
    (Except.ok a >>= f) = f a := rfl

/-- A sequence of two computations succeeds when both do. -/
theorem except_bind_eq_ok {ε α β : Type} {x : Except ε α} {f : α → Except ε β} {b : β} :
    (x >>= f) = .ok b ↔ ∃ a, x = .ok a ∧ f a = .ok b := by
  cases x with
  | error e =>
    constructor
    · intro h
      cases h
    · rintro ⟨a, h, -⟩
      cases h
  | ok a =>
    constructor
    · intro h
      exact ⟨a, rfl, h⟩
    · rintro ⟨a', h, h'⟩
      cases h
      exact h'

/-! ## Readers -/

section Reads

variable {σ ε α γ β : Type} {ahead : σ → List β → Prop}

/-- In every state with `l` ahead, the reader `m` returns `a` and stops behind `l`.
`ahead s rest` says that `rest` is what the state `s` has still to read. -/
def Reads (ahead : σ → List β → Prop) (m : StateT σ (Except ε) α) (l : List β) (a : α) : Prop :=
  ∀ s rest, ahead s (l ++ rest) → ∃ s', m s = .ok (a, s') ∧ ahead s' rest

theorem Reads.pure (a : α) : Reads ahead (Pure.pure a : StateT σ (Except ε) α) [] a :=
  fun s _ h => ⟨s, rfl, h⟩

theorem Reads.bind {m : StateT σ (Except ε) α} {f : α → StateT σ (Except ε) γ} {l l' : List β}
    {a : α} {c : γ} (hm : Reads ahead m l a) (hf : Reads ahead (f a) l' c) :
    Reads ahead (m >>= f) (l ++ l') c := by
  intro s rest h
  rw [List.append_assoc] at h
  obtain ⟨s', hs', h'⟩ := hm s (l' ++ rest) h
  obtain ⟨s'', hs'', h''⟩ := hf s' rest h'
  refine ⟨s'', ?_, h''⟩
  rw [← hs'']
  simp only [Bind.bind, StateT.bind, hs', Except.bind]

/-- A reader whose value is put into another form. -/
theorem Reads.bind_pure {m : StateT σ (Except ε) α} {l : List β} {a : α} (hm : Reads ahead m l a)
    (f : α → γ) : Reads ahead (m >>= fun x => Pure.pure (f x)) l (f a) := by
  have := hm.bind (f := fun x => Pure.pure (f x)) (Reads.pure (f a))
  rwa [List.append_nil] at this

end Reads

/-! ## Writers -/

section Writes

variable {σ ε ι β : Type} {content : σ → List β} {limit : ℕ} {f g : σ → Except ε σ}
  {o o' : Option (List β)}

/-- The writer `f` appends the bytes of `o` to the content, if all stays below the limit, and
fails if not; with `none` it always fails. -/
def Writes (content : σ → List β) (limit : ℕ) (f : σ → Except ε σ) (o : Option (List β)) : Prop :=
  ∀ s, (content s).length < limit →
    (∀ l, o = some l → (content s).length + l.length < limit →
      ∃ s', f s = .ok s' ∧ content s' = content s ++ l) ∧
    ((∀ l, o = some l → limit ≤ (content s).length + l.length) → ∃ e, f s = .error e)

/-- The bytes of two writers one after the other. -/
def appendBytes (o o' : Option (List β)) : Option (List β) :=
  o.bind fun l => o'.map fun l' => l ++ l'

/-- The bytes of a list of writers. -/
def joinBytes : List (Option (List β)) → Option (List β)
  | [] => some []
  | o :: os => appendBytes o (joinBytes os)

theorem appendBytes_eq_some {l : List β} :
    appendBytes o o' = some l ↔ ∃ l₁ l₂, o = some l₁ ∧ o' = some l₂ ∧ l = l₁ ++ l₂ := by
  simp only [appendBytes, Option.bind_eq_some_iff, Option.map_eq_some_iff]
  constructor
  · rintro ⟨l₁, h₁, l₂, h₂, rfl⟩
    exact ⟨l₁, l₂, h₁, h₂, rfl⟩
  · rintro ⟨l₁, l₂, h₁, h₂, rfl⟩
    exact ⟨l₁, h₁, l₂, h₂, rfl⟩

theorem Writes.ok : Writes content limit (fun s => (.ok s : Except ε σ)) (some []) := by
  intro s hs
  refine ⟨?_, fun h => ?_⟩
  · rintro l ⟨⟩ -
    exact ⟨s, rfl, (List.append_nil _).symm⟩
  · have := h [] rfl
    simp only [List.length_nil] at this
    omega

theorem Writes.error {e : ε} : Writes content limit (fun _ => .error e) none :=
  fun _ _ => ⟨fun _ h => (nomatch h), fun _ => ⟨e, rfl⟩⟩

theorem Writes.bind (hf : Writes content limit f o) (hg : Writes content limit g o') :
    Writes content limit (fun s => f s >>= g) (appendBytes o o') := by
  intro s hs
  by_cases hfit : ∃ l, o = some l ∧ (content s).length + l.length < limit
  · obtain ⟨l, rfl, hlt⟩ := hfit
    obtain ⟨s', hs', hc⟩ := (hf s hs).1 l rfl hlt
    have hlen : (content s').length = (content s).length + l.length := by
      rw [hc, List.length_append]
    obtain ⟨hok, herr⟩ := hg s' (by omega)
    simp only [hs', Bind.bind, Except.bind]
    refine ⟨fun l' h hlt' => ?_, fun h => herr fun l' hl' => ?_⟩
    · obtain ⟨l₁, l₂, h₁, h₂, rfl⟩ := appendBytes_eq_some.mp h
      obtain rfl := Option.some.inj h₁
      rw [List.length_append] at hlt'
      obtain ⟨s'', hs'', hc'⟩ := hok l₂ h₂ (by omega)
      exact ⟨s'', hs'', by rw [hc', hc, List.append_assoc]⟩
    · have := h (l ++ l') (appendBytes_eq_some.mpr ⟨l, l', rfl, hl', rfl⟩)
      rw [List.length_append] at this
      omega
  · have hbig : ∀ l, o = some l → limit ≤ (content s).length + l.length :=
      fun l hl => Nat.le_of_not_lt fun hlt => hfit ⟨l, hl, hlt⟩
    obtain ⟨e, he⟩ := (hf s hs).2 hbig
    refine ⟨fun l h hlt => ?_, fun _ => ⟨e, by simp only [he, Bind.bind, Except.bind]⟩⟩
    obtain ⟨l₁, l₂, h₁, h₂, rfl⟩ := appendBytes_eq_some.mp h
    have := hbig l₁ h₁
    rw [List.length_append] at hlt
    omega

/-- A loop that writes one item after another. -/
theorem Writes.foldlM {h : σ → ι → Except ε σ} {p : ι → Option (List β)} :
    ∀ xs : List ι, (∀ x ∈ xs, Writes content limit (fun s => h s x) (p x)) →
      Writes content limit (fun s => xs.foldlM h s) (joinBytes (xs.map p))
  | [], _ => Writes.ok
  | x :: xs, hx => by
    simp only [List.foldlM_cons, List.map_cons, joinBytes]
    exact (hx x (List.mem_cons_self ..)).bind
      (Writes.foldlM xs fun y hy => hx y (List.mem_cons_of_mem x hy))

end Writes

end SkynetEureka.Lib
