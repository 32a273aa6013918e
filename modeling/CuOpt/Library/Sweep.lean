import Mathlib

/-! The minimum over places that are read one after the other, while items move between them. An item
that is held all the time is not missed as long as it never moves from an unread place to a read one. -/

namespace Sweep

variable {α κ ι : Type*} [LinearOrder κ]

def Accounted (held : ι → α → Prop) (key : α → κ) (unread : Set ι) (v : κ) (x : α) : Prop :=
  v ≤ key x ∨ ∃ l ∈ unread, held l x

variable {held held' : ι → α → Prop} {key key' : α → κ} {unread unread' : Set ι} {v v' : κ} {x : α}

lemma Accounted.read (h : Accounted held key unread v x) (hv : v' ≤ v)
    (hread : ∀ l ∈ unread, l ∉ unread' → held l x → v' ≤ key x) :
    Accounted held key unread' v' x := by
  rcases h with hle | ⟨l, hl, hx⟩
  · exact .inl (hv.trans hle)
  · by_cases hl' : l ∈ unread'
    · exact .inr ⟨l, hl', hx⟩
    · exact .inl (hread l hl hl' hx)

lemma Accounted.move (h : Accounted held key unread v x) (hkey : key' x = key x)
    (hmove : ∀ l ∈ unread, held l x → ∃ l' ∈ unread', held' l' x) :
    Accounted held' key' unread' v x := by
  rcases h with hle | ⟨l, hl, hx⟩
  · exact .inl (hle.trans_eq hkey.symm)
  · exact .inr (hmove l hl hx)

lemma Accounted.le_key (h : Accounted held key unread v x) (hread : ∀ l ∈ unread, ¬ held l x) :
    v ≤ key x := by
  rcases h with hle | ⟨l, hl, hx⟩
  · exact hle
  · exact absurd hx (hread l hl)

lemma run_induction {σ : Type*} {R : σ → σ → Prop} {P Q : σ → Prop}
    (hstep : ∀ a b, R a b → Q a → Q b → P a → P b) {a b : σ} {run : List σ}
    (hrun : (a :: run).IsChain R) (hQ : ∀ c ∈ a :: run, Q c) (ha : P a)
    (hb : (a :: run).getLast? = some b) : P b := by
  induction run generalizing a with
  | nil =>
    cases hb
    exact ha
  | cons c run ih =>
    obtain ⟨hac, htail⟩ := List.isChain_cons_cons.mp hrun
    have hc : P c := hstep a c hac (hQ a List.mem_cons_self)
      (hQ c (List.mem_cons_of_mem a List.mem_cons_self)) ha
    rw [List.getLast?_cons_cons] at hb
    exact ih htail (fun d hd => hQ d (List.mem_cons_of_mem a hd)) hc hb

end Sweep
