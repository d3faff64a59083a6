/-
  Replacing tokens in a text, and the template that is left.

  * `sub find w skip s`: the text `s` with `w` for each token, from the left; `find` is the
    length of the token a text begins with (`Finds`);
  * `fill v s`: the template `s`, a text with holes, with `v k` in the hole `k`;
  * `Replaced tokens k s s'`: the template `s'` has a hole `k` for each token of `s`;
    replacing tokens of a filled template fills the template replaced (`sub_fill`);
  * `fill_inj`: of two fillings that give one text, where only one hole's fillings may
    differ in length, each hole is filled alike.

  Tokens are `Bracketed`: an opening character, a name and a closing one, so that no two of
  them overlap.
-/
import Mathlib.Data.List.Basic
import Mathlib.Data.List.Infix
import Mathlib.Data.Sum.Basic

namespace Template

variable {α κ : Type*}

/-! ## Replacing tokens -/

/-- The text with `w` for each token, the first `skip` characters left out. -/
def sub (find : List α → Option ℕ) (w : List α) : ℕ → List α → List α
  | _, [] => []
  | skip + 1, _ :: s => sub find w skip s
  | 0, c :: s => match find (c :: s) with
    | some n => w ++ sub find w (n - 1) s
    | none => c :: sub find w 0 s

/-- What the first token of a text has to say. -/
def search (find : List α → Option ℕ) : List α → Option ℕ
  | [] => none
  | c :: s => (find (c :: s)).or (search find s)

/-- The tokens of a text, the first `skip` characters left out. -/
def findAll (find : List α → Option ℕ) : ℕ → List α → List (List α)
  | _, [] => []
  | skip + 1, _ :: s => findAll find skip s
  | 0, c :: s => match find (c :: s) with
    | some n => (c :: s).take n :: findAll find (n - 1) s
    | none => findAll find 0 s

/-- One token and no other. -/
def literal [DecidableEq α] (t s : List α) : Option ℕ := if t <+: s then some t.length else none

/-- `find` is the length of the token a text begins with. -/
structure Finds (find : List α → Option ℕ) (tokens : List α → Prop) : Prop where
  token : ∀ {s n}, find s = some n → ∃ t, tokens t ∧ t <+: s ∧ t.length = n
  none : ∀ {s}, find s = none → ∀ t, tokens t → ¬t <+: s

theorem finds_literal [DecidableEq α] (t : List α) : Finds (literal t) (· = t) where
  token h := by
    rw [literal] at h
    split_ifs at h with hs
    exact ⟨t, rfl, hs, Option.some.inj h⟩
  none h := by
    rintro _ rfl
    rw [literal] at h
    split_ifs at h with hs
    exact hs

/-- An opening character, a name without it, and a closing one. -/
structure Bracketed (o c : α) (t : List α) : Prop where
  split : ∃ name, t = o :: name ++ [c] ∧ o ∉ name ∧ c ∉ name
  ne : o ≠ c

namespace Bracketed
variable {o c : α} {t u s : List α} (ht : Bracketed o c t)
include ht

theorem cons : ∃ t', t = o :: t' ∧ o ∉ t' := by
  obtain ⟨name, rfl, ho, -⟩ := ht.split
  exact ⟨name ++ [c], rfl, by simp [ho, ht.ne]⟩

/-- A text begins with one token at most. -/
theorem unique (hu : Bracketed o c u) (hts : t <+: s) (hus : u <+: s) : t = u := by
  obtain ⟨name, rfl, -, hc⟩ := ht.split
  obtain ⟨name', rfl, -, hc'⟩ := hu.split
  suffices ∀ {n n' : List α}, c ∉ n → c ∉ n' → n ++ [c] <+: n' ++ [c] → n = n' by
    rcases List.prefix_or_prefix_of_prefix hts hus with h | h
    · rw [List.cons_append, List.cons_append, List.cons_prefix_cons] at h
      rw [this hc hc' h.2]
    · rw [List.cons_append, List.cons_append, List.cons_prefix_cons] at h
      rw [this hc' hc h.2]
  intro n n' hn hn' h
  induction n generalizing n' with
  | nil =>
    cases n' with
    | nil => rfl
    | cons d n' =>
      rw [List.nil_append, List.cons_append, List.cons_prefix_cons] at h
      exact absurd (h.1 ▸ List.mem_cons_self) hn'
  | cons d n ih =>
    cases n' with
    | nil =>
      rw [List.nil_append, List.cons_append, List.cons_prefix_cons] at h
      exact absurd (h.1 ▸ List.mem_cons_self) hn
    | cons d' n' =>
      rw [List.cons_append, List.cons_append, List.cons_prefix_cons] at h
      rw [h.1, ih (fun hmem => hn (List.mem_cons_of_mem d hmem)) (fun hmem => hn' (List.mem_cons_of_mem d' hmem)) h.2]

end Bracketed

section
variable {find : List α → Option ℕ} {tokens : List α → Prop} {o c : α} {w t s : List α} {n : ℕ}

theorem sub_skip : sub find w n s = sub find w 0 (s.drop n) := by
  induction n generalizing s with
  | zero => rfl
  | succ n ih =>
    cases s with
    | nil => rw [List.drop_nil, sub, sub]
    | cons d s => rw [sub, ih, List.drop_succ_cons]

theorem sub_token (hfind : Finds find tokens) (htokens : ∀ t, tokens t → Bracketed o c t) (ht : tokens t) :
    sub find w 0 (t ++ s) = w ++ sub find w 0 s := by
  obtain ⟨t', heq, -⟩ := (htokens t ht).cons
  have hfound : find (t ++ s) = some t.length := by
    cases h : find (t ++ s) with
    | none => exact absurd (List.prefix_append t s) (hfind.none h t ht)
    | some n =>
      obtain ⟨u, hu, hus, rfl⟩ := hfind.token h
      rw [(htokens t ht).unique (htokens u hu) (List.prefix_append t s) hus]
  subst heq
  rw [List.cons_append] at hfound ⊢
  rw [sub, hfound]
  show w ++ sub find w t'.length (t' ++ s) = w ++ sub find w 0 s
  rw [sub_skip, List.drop_left]

theorem sub_char {d : α} (hfind : Finds find tokens) (h : ∀ t, tokens t → ¬t <+: d :: s) :
    sub find w 0 (d :: s) = d :: sub find w 0 s := by
  have hnone : find (d :: s) = none := by
    cases hd : find (d :: s) with
    | none => rfl
    | some n =>
      obtain ⟨t, ht, hts, -⟩ := hfind.token hd
      exact absurd hts (h t ht)
  rw [sub, hnone]

/-- Text without a token's characters stays as it is. -/
theorem sub_ink {ink : α → Prop} {u : List α} (hfind : Finds find tokens)
    (htokens : ∀ t, tokens t → Bracketed o c t) (hfree : ¬ink o) (hu : ∀ d ∈ u, ink d) :
    sub find w 0 (u ++ s) = u ++ sub find w 0 s := by
  induction u with
  | nil => rfl
  | cons d u ih =>
    rw [List.cons_append, sub_char hfind, ih (fun e he => hu e (List.mem_cons_of_mem d he)), List.cons_append]
    intro t ht hpre
    obtain ⟨t', rfl, -⟩ := (htokens t ht).cons
    rw [List.cons_prefix_cons] at hpre
    exact hfree (hpre.1 ▸ hu d List.mem_cons_self)

/-- A text searched with success has a token. -/
theorem infix_of_search (hfind : Finds find tokens) (h : search find s ≠ none) : ∃ t, tokens t ∧ t <:+: s := by
  induction s with
  | nil => exact absurd rfl h
  | cons d s ih =>
    cases hd : find (d :: s) with
    | some n =>
      obtain ⟨t, ht, hts, -⟩ := hfind.token hd
      exact ⟨t, ht, hts.isInfix⟩
    | none =>
      rw [search, hd, Option.none_or] at h
      obtain ⟨t, ht, hts⟩ := ih h
      exact ⟨t, ht, List.infix_cons hts⟩

end

/-! ## Templates -/

/-- A template with its holes filled. -/
def fill (v : κ → List α) (s : List (α ⊕ κ)) : List α := s.flatMap (Sum.elim (fun c => [c]) v)

/-- `s'` has a hole `k` for each token among the characters of `s`, from the left. -/
inductive Replaced (tokens : List α → Prop) (k : κ) : List (α ⊕ κ) → List (α ⊕ κ) → Prop where
  | nil : Replaced tokens k [] []
  | token {t s s'} : tokens t → Replaced tokens k s s' → Replaced tokens k (t.map .inl ++ s) (.inr k :: s')
  | char {c s s'} : (∀ t, tokens t → ¬t.map .inl <+: .inl c :: s) → Replaced tokens k s s' →
      Replaced tokens k (.inl c :: s) (.inl c :: s')
  | hole {j s s'} : Replaced tokens k s s' → Replaced tokens k (.inr j :: s) (.inr j :: s')

section
variable {v v' : κ → List α} {s s' : List (α ⊕ κ)} {j k : κ} {c : α} {t : List α}

@[simp] theorem fill_nil : fill v [] = [] := rfl

@[simp] theorem fill_char : fill v (.inl c :: s) = c :: fill v s := rfl

@[simp] theorem fill_hole : fill v (.inr k :: s) = v k ++ fill v s := rfl

@[simp] theorem fill_append : fill v (s ++ s') = fill v s ++ fill v s' := List.flatMap_append

@[simp] theorem fill_text : fill v (t.map .inl) = t := by
  induction t with
  | nil => rfl
  | cons c t ih => rw [List.map_cons, fill_char, ih]

theorem infix_fill (h : t.map .inl <:+: s) : t <:+: fill v s := by
  obtain ⟨a, b, rfl⟩ := h
  rw [fill_append, fill_append, fill_text]
  exact ⟨fill v a, fill v b, rfl⟩

/-- The holes of a template are filled, with characters no token has. -/
def Inked (ink : α → Prop) (v : κ → List α) (s : List (α ⊕ κ)) : Prop :=
  ∀ j, .inr j ∈ s → v j ≠ [] ∧ ∀ d ∈ v j, ink d

theorem Inked.tail {ink : α → Prop} {x : α ⊕ κ} (h : Inked ink v (x :: s)) : Inked ink v s :=
  fun j hj => h j (List.mem_cons_of_mem x hj)

/-- A token of a filled template is one of the template's characters. -/
theorem prefix_of_fill {ink : α → Prop} (hv : Inked ink v s) (hfree : ∀ d ∈ t, ¬ink d) (h : t <+: fill v s) :
    t.map .inl <+: s := by
  induction t generalizing s with
  | nil => exact List.nil_prefix
  | cons d t ih =>
    cases s with
    | nil => simp at h
    | cons x s =>
      cases x with
      | inl e =>
        rw [fill_char, List.cons_prefix_cons] at h
        rw [List.map_cons, List.cons_prefix_cons, h.1]
        exact ⟨rfl, ih hv.tail (fun e he => hfree e (List.mem_cons_of_mem d he)) h.2⟩
      | inr j =>
        obtain ⟨hne, hink⟩ := hv j List.mem_cons_self
        obtain ⟨e, u, hu⟩ := List.exists_cons_of_ne_nil hne
        rw [fill_hole, hu, List.cons_append, List.cons_prefix_cons] at h
        exact absurd (h.1 ▸ hink e (by simp [hu])) (hfree d List.mem_cons_self)

end

section
variable {tokens : List α → Prop} {find : List α → Option ℕ} {o c : α} {k : κ} {v : κ → List α} {s s' : List (α ⊕ κ)}
  {t : List α}

/-- **Replacing tokens of a filled template** fills the template replaced, where no token
    has a character of what fills its holes. -/
theorem sub_fill (ink : α → Prop) (hfind : Finds find tokens) (htokens : ∀ t, tokens t → Bracketed o c t)
    (hfree : ∀ t, tokens t → ∀ d ∈ t, ¬ink d) (ho : ¬ink o) (h : Replaced tokens k s s') (hv : Inked ink v s) :
    sub find (v k) 0 (fill v s) = fill v s' := by
  induction h with
  | nil => rw [fill_nil, sub]
  | @token t s s' ht _ ih =>
    rw [fill_append, fill_text, sub_token hfind htokens ht, fill_hole, ih]
    exact fun j hj => hv j (List.mem_append_right _ hj)
  | char hnone _ ih =>
    rw [fill_char, sub_char hfind, ih hv.tail, fill_char]
    intro t ht hpre
    exact hnone t ht (prefix_of_fill hv (hfree t ht) hpre)
  | @hole j s s' _ ih =>
    rw [fill_hole, sub_ink hfind htokens ho (hv j List.mem_cons_self).2, ih hv.tail, fill_hole]

theorem exists_replaced (htokens : ∀ t, tokens t → Bracketed o c t) (k : κ) :
    ∀ s : List (α ⊕ κ), ∃ s', Replaced tokens k s s'
  | [] => ⟨[], .nil⟩
  | .inr j :: s => by
    obtain ⟨s', h⟩ := exists_replaced htokens k s
    exact ⟨.inr j :: s', .hole h⟩
  | .inl d :: s => by
    by_cases ht : ∃ t, tokens t ∧ t.map .inl <+: .inl d :: s
    · obtain ⟨t, ht, rest, hrest⟩ := ht
      have hlt : rest.length < s.length + 1 := by
        obtain ⟨t', rfl, -⟩ := (htokens t ht).cons
        have hlength := congrArg List.length hrest
        simp only [List.length_append, List.length_map, List.length_cons] at hlength
        omega
      obtain ⟨s', h⟩ := exists_replaced htokens k rest
      exact ⟨.inr k :: s', hrest ▸ .token ht h⟩
    · obtain ⟨s', h⟩ := exists_replaced htokens k s
      exact ⟨.inl d :: s', .char (fun t htok hpre => ht ⟨t, htok, hpre⟩) h⟩
termination_by s => s.length

/-- The holes of a template stay. -/
theorem Replaced.mem (h : Replaced tokens k s s') {j : κ} (hj : .inr j ∈ s) : .inr j ∈ s' := by
  induction h with
  | nil => exact hj
  | @token t s s' _ _ ih =>
    rcases List.mem_append.1 hj with hj | hj
    · simp at hj
    · exact List.mem_cons_of_mem _ (ih hj)
  | char _ _ ih =>
    rcases List.mem_cons.1 hj with hj | hj
    · cases hj
    · exact List.mem_cons_of_mem _ (ih hj)
  | hole _ ih =>
    rcases List.mem_cons.1 hj with hj | hj
    · exact hj ▸ List.mem_cons_self
    · exact List.mem_cons_of_mem _ (ih hj)

/-- Characters no token begins with stay. -/
theorem Replaced.text (htokens : ∀ t, tokens t → Bracketed o c t) {u : List α} (ho : o ∉ u) {b : List (α ⊕ κ)}
    (h : Replaced tokens k (u.map .inl ++ b) s') : ∃ b', s' = u.map .inl ++ b' := by
  induction u generalizing s' with
  | nil => exact ⟨s', rfl⟩
  | cons d u ih =>
    rw [List.map_cons, List.cons_append] at h
    generalize hs : (Sum.inl d :: (u.map Sum.inl ++ b) : List (α ⊕ κ)) = s at h
    cases h with
    | nil => cases hs
    | token ht _ =>
      obtain ⟨t', rfl, -⟩ := (htokens _ ht).cons
      obtain ⟨hd, -⟩ := List.cons.inj hs
      exact absurd (Sum.inl.inj hd ▸ List.mem_cons_self) ho
    | char _ h =>
      obtain ⟨hd, rfl⟩ := List.cons.inj hs
      obtain ⟨b', rfl⟩ := ih (fun hmem => ho (List.mem_cons_of_mem d hmem)) h
      obtain rfl := Sum.inl.inj hd
      exact ⟨b', rfl⟩
    | hole h => cases hs

theorem Bracketed.map (ht : Bracketed o c t) : Bracketed (Sum.inl o : α ⊕ κ) (Sum.inl c) (t.map Sum.inl) := by
  obtain ⟨name, rfl, ho, hc⟩ := ht.split
  exact ⟨⟨name.map Sum.inl, by simp, by simpa using ho, by simpa using hc⟩, by simpa using ht.ne⟩

/-- **A token makes a hole, and any other bracketed text stays.** -/
theorem Replaced.occurs (htokens : ∀ t, tokens t → Bracketed o c t) (ht : Bracketed o c t)
    (h : Replaced tokens k s s') (hs : t.map .inl <:+: s) :
    (tokens t → .inr k ∈ s') ∧ (¬tokens t → t.map .inl <:+: s') := by
  obtain ⟨a, b, rfl⟩ := hs
  obtain ⟨t', hcons, ho⟩ := ht.cons
  generalize hs : a ++ t.map Sum.inl ++ b = s at h
  induction h generalizing a with
  | nil => simp [hcons] at hs
  | @token u s s' hu hrest ih =>
    rw [List.append_assoc, List.append_eq_append_iff] at hs
    rcases hs with ⟨a', hua, hs⟩ | ⟨a', rfl, hs⟩
    · cases a with
      | nil =>
        -- the tokens begin at the same place, so they are the same
        have hut : u.map (Sum.inl : α → α ⊕ κ) = t.map Sum.inl :=
          (htokens u hu).map.unique ht.map ⟨s, by rw [hs, hua, List.nil_append]⟩ (List.prefix_append _ b)
        obtain rfl := List.map_injective_iff.2 Sum.inl_injective hut
        exact ⟨fun _ => List.mem_cons_self, fun hnot => absurd hu hnot⟩
      | cons x a =>
        cases a' with
        | nil =>
          rw [List.nil_append] at hs
          obtain ⟨hhole, hstay⟩ := ih [] (by rw [← hs, List.nil_append])
          exact ⟨fun htok => List.mem_cons_of_mem _ (hhole htok), fun hnot => List.infix_cons (hstay hnot)⟩
        | cons y a' =>
          -- the second token would begin within the first
          rw [hcons, List.map_cons, List.cons_append] at hs
          obtain ⟨rfl, -⟩ := List.cons.inj hs
          obtain ⟨u', rfl, hou⟩ := (htokens u hu).cons
          rw [List.map_cons, List.cons_append] at hua
          obtain ⟨-, hua⟩ := List.cons.inj hua
          have hmem : (Sum.inl o : α ⊕ κ) ∈ u'.map Sum.inl := by simp [hua]
          obtain ⟨d, hd, hdo⟩ := List.mem_map.1 hmem
          exact absurd (Sum.inl.inj hdo ▸ hd) hou
    · obtain ⟨hhole, hstay⟩ := ih a' (by rw [List.append_assoc, hs])
      exact ⟨fun htok => List.mem_cons_of_mem _ (hhole htok), fun hnot => List.infix_cons (hstay hnot)⟩
  | @char d s s' hnone hrest ih =>
    cases a with
    | nil =>
      rw [List.nil_append] at hs
      refine ⟨fun htok => absurd ⟨b, hs⟩ (hnone t htok), fun _ => ?_⟩
      rw [hcons, List.map_cons, List.cons_append] at hs
      obtain ⟨hd, rfl⟩ := List.cons.inj hs
      obtain ⟨b', rfl⟩ := hrest.text htokens ho
      rw [hcons, List.map_cons, hd]
      exact ⟨[], b', rfl⟩
    | cons x a =>
      rw [List.cons_append, List.cons_append] at hs
      obtain ⟨-, hs⟩ := List.cons.inj hs
      obtain ⟨hhole, hstay⟩ := ih a hs
      exact ⟨fun htok => List.mem_cons_of_mem _ (hhole htok), fun hnot => List.infix_cons (hstay hnot)⟩
  | @hole j s s' _ ih =>
    cases a with
    | nil =>
      rw [List.nil_append, hcons] at hs
      cases hs
    | cons x a =>
      rw [List.cons_append, List.cons_append] at hs
      obtain ⟨-, hs⟩ := List.cons.inj hs
      obtain ⟨hhole, hstay⟩ := ih a hs
      exact ⟨fun htok => List.mem_cons_of_mem _ (hhole htok), fun hnot => List.infix_cons (hstay hnot)⟩

end

/-! ## Two fillings of one template -/

section
variable {v v' : κ → List α} {s : List (α ⊕ κ)} {k : κ}

theorem length_fill_le (h : ∀ j, .inr j ∈ s → (v j).length ≤ (v' j).length) :
    (fill v s).length ≤ (fill v' s).length := by
  induction s with
  | nil => exact le_rfl
  | cons x s ih =>
    have hs := ih fun j hj => h j (List.mem_cons_of_mem x hj)
    cases x with
    | inl c => simpa using hs
    | inr j =>
      have hj := h j List.mem_cons_self
      rw [fill_hole, fill_hole, List.length_append, List.length_append]
      omega

theorem length_fill_lt (h : ∀ j, .inr j ∈ s → (v j).length ≤ (v' j).length) (hk : .inr k ∈ s)
    (hlt : (v k).length < (v' k).length) : (fill v s).length < (fill v' s).length := by
  induction s with
  | nil => cases hk
  | cons x s ih =>
    have htail : ∀ j, .inr j ∈ s → (v j).length ≤ (v' j).length := fun j hj => h j (List.mem_cons_of_mem x hj)
    rcases List.mem_cons.1 hk with rfl | hk
    · have hs := length_fill_le htail
      rw [fill_hole, fill_hole, List.length_append, List.length_append]
      omega
    · have hs := ih htail hk
      cases x with
      | inl c => simpa using hs
      | inr j =>
        have hj := h j List.mem_cons_self
        rw [fill_hole, fill_hole, List.length_append, List.length_append]
        omega

theorem fill_inj_of_length (h : ∀ j, .inr j ∈ s → (v j).length = (v' j).length) (heq : fill v s = fill v' s) :
    ∀ j, .inr j ∈ s → v j = v' j := by
  induction s with
  | nil => intro j hj; cases hj
  | cons x s ih =>
    have htail : ∀ j, .inr j ∈ s → (v j).length = (v' j).length := fun j hj => h j (List.mem_cons_of_mem x hj)
    intro j hj
    cases x with
    | inl c =>
      rw [fill_char, fill_char] at heq
      rcases List.mem_cons.1 hj with hj | hj
      · cases hj
      · exact ih htail (List.cons.inj heq).2 j hj
    | inr i =>
      rw [fill_hole, fill_hole] at heq
      obtain ⟨hi, hrest⟩ := List.append_inj heq (h i List.mem_cons_self)
      rcases List.mem_cons.1 hj with hj | hj
      · exact Sum.inr.inj hj ▸ hi
      · exact ih htail hrest j hj

/-- **Two fillings that give one text fill each hole alike**, where only one hole's may
    differ in length. -/
theorem fill_inj (h : ∀ j, .inr j ∈ s → j ≠ k → (v j).length = (v' j).length) (heq : fill v s = fill v' s) :
    ∀ j, .inr j ∈ s → v j = v' j := by
  by_cases hk : .inr k ∈ s
  · refine fill_inj_of_length (fun j hj => ?_) heq
    by_cases hjk : j = k
    · subst hjk
      rcases lt_trichotomy (v j).length (v' j).length with hlt | hsame | hlt
      · have hle : ∀ i, .inr i ∈ s → (v i).length ≤ (v' i).length := by
          intro i hi
          by_cases hij : i = j
          · exact hij ▸ hlt.le
          · exact (h i hi hij).le
        exact absurd (congrArg List.length heq) (length_fill_lt hle hk hlt).ne
      · exact hsame
      · have hle : ∀ i, .inr i ∈ s → (v' i).length ≤ (v i).length := by
          intro i hi
          by_cases hij : i = j
          · exact hij ▸ hlt.le
          · exact (h i hi hij).ge
        exact absurd (congrArg List.length heq) (length_fill_lt hle hk hlt).ne'
    · exact h j hj hjk
  · exact fill_inj_of_length (fun j hj => h j hj fun hjk => hk (hjk ▸ hj)) heq

end

end Template
