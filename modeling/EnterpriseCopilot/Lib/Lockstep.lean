import Mathlib.Data.List.Perm.Basic
import EnterpriseCopilot.Lib.Program

universe u v

/-! Two stores side by side: related lists, and programs that run over both. -/

namespace EnterpriseCopilot.Lib

section Related

variable {α : Type u} {β : Type v} {R : α → β → Prop} {l : List α} {m : List β}

/-- Related predicates find related elements. -/
theorem forall₂_find? {p : α → Bool} {q : β → Bool} (h : List.Forall₂ R l m)
    (hpq : ∀ a b, R a b → p a = q b) : (l.find? p = none ∧ m.find? q = none) ∨
      ∃ a b, R a b ∧ l.find? p = some a ∧ m.find? q = some b := by
  induction h with
  | nil => exact .inl ⟨rfl, rfl⟩
  | @cons a b l m hab _ ih =>
    rw [List.find?_cons, List.find?_cons, hpq a b hab]
    cases q b with
    | true => exact .inr ⟨a, b, hab, rfl, rfl⟩
    | false => exact ih

theorem forall₂_exists {p : α → Prop} {q : β → Prop} (h : List.Forall₂ R l m)
    (hpq : ∀ a b, R a b → (p a ↔ q b)) : (∃ a ∈ l, p a) ↔ ∃ b ∈ m, q b := by
  induction h with
  | nil => simp
  | @cons a b l m hab _ ih =>
    rw [List.exists_mem_cons_iff, List.exists_mem_cons_iff, hpq a b hab, ih]

theorem forall₂_mem {a : α} (h : List.Forall₂ R l m) (ha : a ∈ l) : ∃ b ∈ m, R a b := by
  induction h with
  | nil => cases ha
  | @cons c b l m hcb _ ih =>
    rcases List.mem_cons.mp ha with rfl | ha
    · exact ⟨b, .head _, hcb⟩
    · obtain ⟨b', hb', hr⟩ := ih ha
      exact ⟨b', List.mem_cons_of_mem _ hb', hr⟩

theorem forall₂_total : (∃ m, List.Forall₂ R l m) ↔ ∀ a ∈ l, ∃ b, R a b := by
  constructor
  · rintro ⟨m, h⟩ a ha
    obtain ⟨b, -, hab⟩ := forall₂_mem h ha
    exact ⟨b, hab⟩
  · intro h
    induction l with
    | nil => exact ⟨[], .nil⟩
    | cons a l ih =>
      obtain ⟨⟨b, hab⟩, hrest⟩ := List.forall_mem_cons.mp h
      obtain ⟨m, hm⟩ := ih hrest
      exact ⟨b :: m, .cons hab hm⟩

theorem mapM_ok {ε : Type} {f : α → Except ε β} : l.mapM f = .ok m ↔ List.Forall₂ (fun a b => f a = .ok b) l m := by
  induction l generalizing m with
  | nil =>
    rw [List.mapM_nil, List.forall₂_nil_left_iff]
    exact ⟨fun h => (Except.ok.inj h).symm, fun h => h ▸ rfl⟩
  | cons a l ih =>
    rw [List.mapM_cons, List.forall₂_cons_left_iff]
    constructor
    · intro h
      cases hfa : f a with
      | error e =>
        rw [hfa] at h
        cases h
      | ok b =>
        cases hrest : l.mapM f with
        | error e =>
          rw [hfa, hrest] at h
          cases h
        | ok m' =>
          rw [hfa, hrest] at h
          cases h
          exact ⟨b, m', rfl, ih.mp hrest, rfl⟩
    · rintro ⟨b, m', hb, hm', rfl⟩
      rw [hb, ih.mpr hm']
      rfl

theorem mapM_total {ε : Type} {f : α → Except ε β} (h : ∀ a ∈ l, ∃ b, f a = .ok b) : ∃ m, l.mapM f = .ok m := by
  induction l with
  | nil => exact ⟨[], rfl⟩
  | cons a l ih =>
    obtain ⟨b, hb⟩ := h a (.head _)
    obtain ⟨m, hm⟩ := ih fun a' ha' => h a' (List.mem_cons_of_mem _ ha')
    rw [List.mapM_cons, hb, hm]
    exact ⟨b :: m, rfl⟩

theorem mapM_error {ε : Type} {f : α → Except ε β} {e : ε} (h : l.mapM f = .error e) : ∃ a ∈ l, f a = .error e := by
  induction l with
  | nil => cases h
  | cons a l ih =>
    rw [List.mapM_cons] at h
    cases hfa : f a with
    | error e' =>
      rw [hfa] at h
      cases h
      exact ⟨a, .head _, hfa⟩
    | ok b =>
      cases hrest : l.mapM f with
      | error e' =>
        rw [hfa, hrest] at h
        cases h
        obtain ⟨a', ha', he⟩ := ih hrest
        exact ⟨a', List.mem_cons_of_mem _ ha', he⟩
      | ok m =>
        rw [hfa, hrest] at h
        cases h

/-- Elements that are read in another order give the same values in another order. -/
theorem mapM_perm {ε : Type} {f : α → Except ε β} {l' : List α} (h : l.mapM f = .ok m) (hperm : l'.Perm l) :
    ∃ m', l'.mapM f = .ok m' ∧ m'.Perm m := by
  obtain ⟨m', hm', hperm'⟩ := List.perm_comp_forall₂ hperm (mapM_ok.mp h)
  exact ⟨m', mapM_ok.mpr hm', hperm'⟩

end Related

namespace Program

variable {C : Type} {R : C → Type} {ε α : Type} {S S' χ : Type} {apply : S → (c : C) → χ → R c × S}
  {apply' : S' → (c : C) → χ → R c × S'} {Q : Except ε α → Except ε α → Prop} {Rel : S → S' → Prop}

/-- For the same choices, the programs end with related outcomes in related states. -/
def Lockstep (apply : S → (c : C) → χ → R c × S) (apply' : S' → (c : C) → χ → R c × S')
    (Q : Except ε α → Except ε α → Prop) (Rel : S → S' → Prop) (p p' : Program C R ε α) (s : S) (s' : S') : Prop :=
  ∀ ω : Nat → χ, Q (run apply p ω s).result (run apply' p' ω s').result ∧
    Rel (run apply p ω s).state (run apply' p' ω s').state

theorem Lockstep.pure {a a' : α} {s : S} {s' : S'} (hQ : Q (.ok a) (.ok a')) (h : Rel s s') :
    Lockstep apply apply' Q Rel (.pure a) (.pure a') s s' := fun _ => ⟨hQ, h⟩

theorem Lockstep.throw {e e' : ε} {s : S} {s' : S'} (hQ : Q (.error e) (.error e')) (h : Rel s s') :
    Lockstep apply apply' Q Rel (.throw e) (.throw e') s s' := fun _ => ⟨hQ, h⟩

theorem Lockstep.cmd {c : C} {k k' : R c → Program C R ε α} {s : S} {s' : S'}
    (h : ∀ ch, Lockstep apply apply' Q Rel (k (apply s c ch).1) (k' (apply' s' c ch).1)
      (apply s c ch).2 (apply' s' c ch).2) :
    Lockstep apply apply' Q Rel (.cmd c k) (.cmd c k') s s' :=
  fun ω => h (ω 0) fun n => ω (n + 1)

end Program

end EnterpriseCopilot.Lib
