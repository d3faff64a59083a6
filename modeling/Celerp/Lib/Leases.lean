/-
  Leases with generations.

  A `Table` says of each resource how often it was granted, to whom, and until when.  A grant
  counts the generation up; a holder keeps its lease by extending it, and frees it.

  * `Backed t now b`: what a holder believes of its lease is so, or its lease was granted again
    and had ended by then.  While its clock is before the end it believes in, the table names it
    (`Backed.names`), whatever others were granted, extended or freed.
  * `Ordered log`: of what was done under leases, newest first, nothing under an older grant of a
    resource comes after something under a newer one.  Doing only what the table's own names
    allow keeps it so (`recorded`).
-/
import Mathlib.Data.List.Basic
import Mathlib.Order.Basic

namespace Leases

/-- The leases of resources. -/
structure Table (ρ η τ : Type*) where
  generation : ρ → ℕ
  holder : ρ → Option η
  expires : ρ → τ

/-- What a holder believes of its lease. -/
structure Belief (ρ η τ : Type*) where
  holder : η
  resources : List ρ
  generation : ρ → ℕ
  ends : τ

/-- Something done with a resource, and the lease it was done under. -/
structure Entry (ρ η : Type*) where
  resource : ρ
  generation : ℕ
  holder : η
  deriving DecidableEq

section
variable {ρ η τ : Type*}

/-- The table names a holder of a resource, at a generation. -/
def Table.Names (t : Table ρ η τ) (h : η) (g : ℕ) (r : ρ) : Prop := t.holder r = some h ∧ t.generation r = g

/-- What is done with each of some resources under one lease. -/
def entries (h : η) (generation : ρ → ℕ) (rs : List ρ) : List (Entry ρ η) := rs.map fun r => ⟨r, generation r, h⟩

variable [DecidableEq ρ]

/-- Grant some resources anew. -/
def Table.grant (t : Table ρ η τ) (h : η) (rs : List ρ) (e : τ) : Table ρ η τ where
  generation r := if r ∈ rs then t.generation r + 1 else t.generation r
  holder r := if r ∈ rs then some h else t.holder r
  expires r := if r ∈ rs then e else t.expires r

/-- Put off the end of some leases. -/
def Table.extend (t : Table ρ η τ) (rs : List ρ) (e : τ) : Table ρ η τ :=
  { t with expires := fun r => if r ∈ rs then e else t.expires r }

/-- Free some resources. -/
def Table.free (t : Table ρ η τ) (rs : List ρ) (e : τ) : Table ρ η τ :=
  { t with holder := fun r => if r ∈ rs then none else t.holder r
           expires := fun r => if r ∈ rs then e else t.expires r }

end

/-! ## Beliefs -/

section
variable {ρ η τ : Type*} [Preorder τ] {t : Table ρ η τ} {now now' e : τ} {b : Belief ρ η τ} {h : η} {r : ρ}
  {rs : List ρ}

/-- A belief is so, or its lease was granted again once it had ended. -/
def Backed (t : Table ρ η τ) (now : τ) (b : Belief ρ η τ) : Prop :=
  ∀ r ∈ b.resources, (t.Names b.holder (b.generation r) r ∧ b.ends ≤ t.expires r) ∨
    (b.generation r < t.generation r ∧ b.ends ≤ now ∧ t.holder r ≠ some b.holder)

/-- **Before the end it believes in, the table names a holder.** -/
theorem Backed.names (hb : Backed t now b) (hr : r ∈ b.resources) (hlive : now < b.ends) :
    t.Names b.holder (b.generation r) r ∧ b.ends ≤ t.expires r :=
  (hb r hr).resolve_right fun hended => absurd hlive (not_lt_of_ge hended.2.1)

theorem Backed.later (hb : Backed t now b) (hnow : now ≤ now') : Backed t now' b :=
  fun r hr => (hb r hr).imp_right fun hended => ⟨hended.1, hended.2.1.trans hnow, hended.2.2⟩

theorem Backed.sub {rs : List ρ} (hb : Backed t now b) (hsub : ∀ r ∈ rs, r ∈ b.resources) :
    Backed t now { b with resources := rs } := fun r hr => hb r (hsub r hr)

variable [DecidableEq ρ]

/-- A resource is granted again only once its lease has ended. -/
theorem Backed.grant (hb : Backed t now b) (hended : ∀ r ∈ rs, t.holder r ≠ none → t.expires r ≤ now)
    (hne : b.holder ≠ h) : Backed (t.grant h rs e) now b := by
  intro r hr
  by_cases hrs : r ∈ rs
  · right
    simp only [Table.grant, if_pos hrs]
    have hother : some h ≠ some b.holder := fun heq => hne (Option.some.inj heq).symm
    rcases hb r hr with ⟨⟨hholder, hgen⟩, hends⟩ | ⟨hgen, hends, -⟩
    · have hsome : t.holder r ≠ none := by simp [hholder]
      exact ⟨by omega, hends.trans (hended r hrs hsome), hother⟩
    · exact ⟨by omega, hends, hother⟩
  · simp only [Table.Names, Table.grant, if_neg hrs]
    exact hb r hr

/-- The lease just granted. -/
theorem backed_granted (hends : b.ends ≤ e) (hgen : ∀ r ∈ b.resources, b.generation r = t.generation r + 1)
    (hrs : ∀ r ∈ b.resources, r ∈ rs) : Backed (t.grant b.holder rs e) now b := by
  intro r hr
  left
  simp only [Table.Names, Table.grant, if_pos (hrs r hr)]
  exact ⟨⟨trivial, (hgen r hr).symm⟩, hends⟩

theorem Backed.extend (hb : Backed t now b) (hlater : ∀ r ∈ rs, t.expires r ≤ e) : Backed (t.extend rs e) now b := by
  intro r hr
  refine (hb r hr).imp_left fun ⟨hnames, hends⟩ => ⟨hnames, ?_⟩
  simp only [Table.extend]
  split_ifs with hrs
  · exact hends.trans (hlater r hrs)
  · exact hends

/-- The lease just extended. -/
theorem backed_extended (hends : b.ends ≤ e) (hrs : ∀ r ∈ b.resources, r ∈ rs)
    (hnames : ∀ r ∈ b.resources, t.Names b.holder (b.generation r) r) : Backed (t.extend rs e) now b := by
  intro r hr
  left
  simp only [Table.Names, Table.extend, if_pos (hrs r hr)]
  exact ⟨hnames r hr, hends⟩

/-- What another holder frees. -/
theorem Backed.free (hb : Backed t now b) (hheld : ∀ r ∈ rs, t.holder r = some h) (hne : b.holder ≠ h) :
    Backed (t.free rs e) now b := by
  intro r hr
  by_cases hrs : r ∈ rs
  · right
    rcases hb r hr with ⟨⟨hholder, -⟩, -⟩ | ⟨hgen, hends, -⟩
    · exact absurd (Option.some.inj (hholder.symm.trans (hheld r hrs))) hne
    · exact ⟨hgen, hends, by simp [Table.free, hrs]⟩
  · simp only [Table.Names, Table.free, if_neg hrs]
    exact hb r hr

/-- What a holder keeps as it frees the rest. -/
theorem Backed.kept (hb : Backed t now b) (hkept : ∀ r ∈ b.resources, r ∉ rs) : Backed (t.free rs e) now b := by
  intro r hr
  simp only [Table.Names, Table.free, if_neg (hkept r hr)]
  exact hb r hr

end

/-! ## What is done under leases -/

section
variable {ρ η τ : Type*} {t : Table ρ η τ} {e : τ} {h : η} {log : List (Entry ρ η)} {rs : List ρ}

/-- Nothing under an older grant of a resource comes after something under a newer one. -/
def Ordered (log : List (Entry ρ η)) : Prop :=
  log.Pairwise fun later earlier => later.resource = earlier.resource →
    earlier.generation ≤ later.generation ∧ (earlier.generation = later.generation → earlier.holder = later.holder)

/-- What was done is under grants the table has seen. -/
def Within (t : Table ρ η τ) (log : List (Entry ρ η)) : Prop :=
  ∀ x ∈ log, x.generation ≤ t.generation x.resource ∧
    (x.generation = t.generation x.resource → ∀ h, t.holder x.resource = some h → x.holder = h)

theorem within_nil : Within t [] := fun _ hx => absurd hx List.not_mem_nil

/-- **Doing what the table's names allow** keeps what is done in order. -/
theorem recorded (generation : ρ → ℕ) (rs : List ρ) (hlog : Ordered log) (hwithin : Within t log)
    (hnames : ∀ r ∈ rs, t.Names h (generation r) r) :
    Ordered (entries h generation rs ++ log) ∧ Within t (entries h generation rs ++ log) := by
  induction rs with
  | nil => exact ⟨hlog, hwithin⟩
  | cons r rs ih =>
    rw [List.forall_mem_cons] at hnames
    obtain ⟨⟨hholder, hgen⟩, hnames⟩ := hnames
    obtain ⟨hordered, hrest⟩ := ih hnames
    constructor
    · refine List.Pairwise.cons (fun x hx heq => ?_) hordered
      obtain ⟨hle, hsame⟩ := hrest x hx
      have hr : r = x.resource := heq
      rw [← hr, hgen] at hle hsame
      exact ⟨hle, fun hlast => hsame hlast h hholder⟩
    · intro x hx
      rcases List.mem_cons.1 hx with rfl | hx
      · exact ⟨Nat.le_of_eq hgen.symm, fun _ h' hh' => Option.some.inj (hholder.symm.trans hh')⟩
      · exact hrest x hx

variable [DecidableEq ρ]

theorem Within.grant (hwithin : Within t log) (h : η) (rs : List ρ) (e : τ) : Within (t.grant h rs e) log := by
  intro x hx
  obtain ⟨hle, hsame⟩ := hwithin x hx
  by_cases hrs : x.resource ∈ rs
  · simp only [Table.grant, if_pos hrs]
    exact ⟨by omega, fun heq => absurd heq (by omega)⟩
  · simp only [Table.grant, if_neg hrs]
    exact ⟨hle, hsame⟩

theorem Within.extend (hwithin : Within t log) : Within (t.extend rs e) log := hwithin

theorem Within.free (hwithin : Within t log) : Within (t.free rs e) log := by
  intro x hx
  refine (hwithin x hx).imp_right fun hsame heq h hholder => hsame heq h ?_
  by_cases hrs : x.resource ∈ rs
  · simp [Table.free, hrs] at hholder
  · simpa [Table.free, hrs] using hholder

end

end Leases
