import Orchestrion.Proofs.Formula.Descent

set_option autoImplicit false

/-!
# How deep the reader goes

The frames of the reader stand for calls, and this says for how many: the most frames that are
on its stack at once are as many as expressions are open at once when a formula is read by
calls (`Descent.peak_eq`).  The reader may hold on to a frame when its call has ended, until the
next token; by then the frame has been counted.
-/

namespace Orchestrion.Formula

/-! ## States on the way -/

/-- Whether tokens that are read from a state on lead to another one on the way. -/
def Passes (σ : State) (ts : List Token) (σ' : State) : Prop :=
  ∃ front, front <+: ts ∧ Reaches σ front σ'

variable {σ σ' : State} {t : Token} {ts : List Token}

theorem passes_self (σ : State) (ts : List Token) : Passes σ ts σ :=
  ⟨[], List.nil_prefix, .refl σ⟩

theorem passes_nil_iff : Passes σ [] σ' ↔ σ' = σ := by
  constructor
  · rintro ⟨front, hfront, hreach⟩
    obtain rfl := List.prefix_nil.mp hfront
    cases hreach
    rfl
  · rintro rfl
    exact passes_self _ _

/-- What is on the way from a state is the state itself, or on the way from where the first token
leads. -/
theorem passes_cons_iff : Passes σ (t :: ts) σ' ↔
    σ' = σ ∨ ∃ σ₁, step 0 σ t = .next σ₁ ∧ Passes σ₁ ts σ' := by
  constructor
  · rintro ⟨front, hfront, hreach⟩
    cases hreach with
    | refl => exact .inl rfl
    | cons hstep hrest =>
      obtain ⟨rfl, hbehind⟩ := List.cons_prefix_cons.mp hfront
      exact .inr ⟨_, hstep, _, hbehind, hrest⟩
  · rintro (rfl | ⟨σ₁, hstep, front, hfront, hreach⟩)
    · exact passes_self _ _
    · exact ⟨t :: front, List.cons_prefix_cons.mpr ⟨rfl, hfront⟩, .cons hstep hreach⟩

theorem passes_iff_of_step {σ₁ : State} (h : step 0 σ t = .next σ₁) :
    Passes σ (t :: ts) σ' ↔ σ' = σ ∨ Passes σ₁ ts σ' := by
  rw [passes_cons_iff, h]
  simp only [Outcome.next.injEq, exists_eq_left']

theorem passes_iff_of_stop (h : ∀ σ₁, step 0 σ t ≠ .next σ₁) :
    Passes σ (t :: ts) σ' ↔ σ' = σ := by
  rw [passes_cons_iff]
  simp only [h, false_and, exists_false, or_false]

/-! ## Peaks -/

/-- How many frames a state has. -/
def State.depth : State → Nat
  | .before stack | .after _ stack => stack.length

/-- The most frames of a state when tokens are read from a state on. -/
def peak (limit : Nat) (σ : State) : List Token → Nat
  | [] => σ.depth
  | t :: ts =>
    match step limit σ t with
    | .next σ' => max σ.depth (peak limit σ' ts)
    | _ => σ.depth

variable {limit start depth : Nat} {task : Task} {taken : List Nat} {r : Found} {e : Expr}
  {frame : Frame} {stack : List Frame}

theorem peak_of_step (h : step limit σ t = .next σ') (ts : List Token) :
    peak limit σ (t :: ts) = max σ.depth (peak limit σ' ts) := by
  rw [peak, h]

/-- Reading that stops goes no deeper. -/
theorem peak_of_stop (h : ∀ σ', step limit σ t ≠ .next σ') (ts : List Token) :
    peak limit σ (t :: ts) = σ.depth := by
  rw [peak]
  split
  · rename_i hstep
    exact absurd hstep (h _)
  · rfl

theorem depth_le_peak (limit : Nat) (σ : State) (ts : List Token) :
    σ.depth ≤ peak limit σ ts := by
  cases ts with
  | nil => exact Nat.le_refl _
  | cons t ts =>
    rw [peak]
    split
    · exact Nat.le_max_left _ _
    · exact Nat.le_refl _

/-- Every state on the way has at most as many frames as the peak, and one has as many. -/
theorem peak_isGreatest (σ : State) (ts : List Token) :
    (∀ σ', Passes σ ts σ' → σ'.depth ≤ peak 0 σ ts) ∧
      ∃ σ', Passes σ ts σ' ∧ σ'.depth = peak 0 σ ts := by
  induction ts generalizing σ with
  | nil =>
    refine ⟨fun σ' h => ?_, σ, passes_self σ [], rfl⟩
    obtain rfl := passes_nil_iff.mp h
    exact Nat.le_refl _
  | cons t ts ih =>
    by_cases hnext : ∃ σ₁, step 0 σ t = .next σ₁
    · obtain ⟨σ₁, hstep⟩ := hnext
      obtain ⟨hall, σ', hpasses, hdepth⟩ := ih σ₁
      simp only [passes_iff_of_step hstep, peak_of_step hstep]
      constructor
      · rintro σ'' (rfl | h)
        · exact Nat.le_max_left _ _
        · exact Nat.le_trans (hall σ'' h) (Nat.le_max_right _ _)
      · rcases Nat.le_total (peak 0 σ₁ ts) σ.depth with hle | hle
        · exact ⟨σ, .inl rfl, (Nat.max_eq_left hle).symm⟩
        · exact ⟨σ', .inr hpasses, hdepth.trans (Nat.max_eq_right hle).symm⟩
    · have hstop : ∀ σ₁, step 0 σ t ≠ .next σ₁ := not_exists.mp hnext
      simp only [passes_iff_of_stop hstop, peak_of_stop hstop]
      exact ⟨fun σ' h => h ▸ Nat.le_refl _, σ, rfl, rfl⟩

/-- In front of tokens that do not bind tighter than the innermost frame, closing that frame
makes no difference but for the frame itself. -/
theorem peak_close (hg : frame ≠ .group) (h : ∀ t ∈ ts.head?, t.power ≤ frame.power) :
    peak limit (.after e (frame :: stack)) ts =
      max (stack.length + 1) (peak limit (.after (frame.close e) stack) ts) := by
  cases ts with
  | nil => exact (Nat.max_eq_left (Nat.le_succ _)).symm
  | cons t ts =>
    have hstep : step limit (.after e (frame :: stack)) t =
        step limit (.after (frame.close e) stack) t := endOperand_close hg (h t rfl)
    rw [peak, peak, hstep]
    simp only [State.depth, List.length_cons]
    split <;> omega

/-! ## Calls -/

/-- The most frames when the reader goes on behind what has been found. -/
def peakBehind (limit : Nat) (stack : List Frame) (ts : List Token) : Found → Nat
  | .ok (e, place) => peak limit (.after e stack) (ts.drop place)
  | .error _ => 0

/-- A closing bracket, or what is found in its place, makes no difference but for the frame of
the bracket. -/
theorem peakBehind_group
    (hpower : ∀ e place, r = .ok (e, place) → ∀ t ∈ ts[place]?, t.power ≤ 0) :
    max (stack.length + 1) (peakBehind limit (.group :: stack) ts r) =
      max (stack.length + 1) (peakBehind limit stack ts (closing ts r).2) := by
  obtain fault | ⟨e, place⟩ := r
  · rfl
  · have ht := hpower _ _ rfl
    simp only [peakBehind, closing]
    cases hnext : ts[place]? with
    | none =>
      rw [List.drop_eq_nil_of_le (List.getElem?_eq_none_iff.mp hnext)]
      simp [peak, State.depth]
    | some t =>
      rw [drop_of_getElem? hnext]
      cases t with
      | operator op => cases op <;> cases ht _ hnext
      | openBracket => cases ht _ hnext
      | closeBracket =>
        have hstep : step limit (.after e (.group :: stack)) .closeBracket =
            .next (.after e stack) := rfl
        rw [peak_of_step hstep]
        simp only [State.depth, List.length_cons]
        omega
      | word _ | number _ _ | unknown _ =>
        rw [peak_of_stop (by rintro σ' ⟨⟩)]
        simp [State.depth]

/-- **The frames are the calls.**  Between frames of which the innermost lets go of an operand as
late as a call does, the most frames on the stack are those below and one for each expression
that is open at once within the call, or as many as there are later on. -/
theorem Descent.peak_eq (h : Descent ts task start taken depth r) :
    ∀ stack, task.Fits limit stack →
      peak limit (task.state stack) (ts.drop start) =
        max (stack.length + depth) (peakBehind limit stack ts r) := by
  induction h with
  | fails _ ih => exact fun stack _ => ih stack trivial
  | @goesOn _ _ place depth depth' _ _ e r _ _ ih ih' =>
    intro stack hfits
    have hoperand : peak limit (.before stack) _ =
        max (stack.length + depth) (peak limit (.after e stack) (ts.drop place)) :=
      ih stack trivial
    have hoperators : peak limit (.after e stack) _ = _ := ih' stack hfits
    simp only [Task.state]
    rw [hoperand, hoperators]
    omega
  | missing ht =>
    intro stack _
    rw [List.drop_eq_nil_of_le (List.getElem?_eq_none_iff.mp ht)]
    exact (Nat.max_eq_left (Nat.zero_le _)).symm
  | misplaced ht hnothing =>
    intro stack _
    simp only [Task.state]
    rw [drop_of_getElem? ht, peak_of_stop]
    · exact (Nat.max_eq_left (Nat.zero_le _)).symm
    · rw [step_of_opening.1 hnothing]
      rintro σ' ⟨⟩
  | value ht hvalue =>
    intro stack _
    simp only [Task.state]
    rw [drop_of_getElem? ht, peak_of_step (step_of_opening.2.1 _ hvalue)]
    rfl
  | @wrapped _ _ _ _ _ r ht hwrapped _ ih =>
    intro stack _
    obtain ⟨frame, hg, -, -, hpower, hclose, hstep⟩ := (prefixes_of_wrapped hwrapped).exists_frame
    have hoperand := ih (frame :: stack) (.inr (Nat.le_refl _))
    simp only [Task.state, List.length_cons] at hoperand ⊢
    rw [drop_of_getElem? ht, peak_of_step (hstep limit stack), hoperand]
    obtain fault | ⟨e, place⟩ := r
    · simp only [State.depth, peakBehind, Except.map]
      omega
    · have hbehind : ∀ u ∈ (ts.drop place).head?, u.power ≤ frame.power :=
        fun u _ => hpower ▸ u.power_le
      simp only [State.depth, peakBehind, Except.map, Prod.map, id]
      rw [peak_close hg hbehind, hclose]
      omega
  | @group _ _ _ _ r ht hgroup h ih =>
    intro stack _
    have hpower : ∀ e place, r = .ok (e, place) → ∀ t ∈ ts[place]?, t.power ≤ 0 := by
      rintro e place rfl
      exact h.power_le
    have hinner := ih (.group :: stack) (.inl rfl)
    have hbehind : max (stack.length + 1) (peakBehind limit (.group :: stack) ts r) = _ :=
      peakBehind_group hpower
    simp only [Task.state, List.length_cons] at hinner ⊢
    rw [drop_of_getElem? ht, peak_of_step (step_of_opening.2.2 hgroup), hinner]
    simp only [State.depth]
    omega
  | stops _ =>
    intro stack _
    exact (Nat.max_eq_right (depth_le_peak limit _ _)).symm
  | @bracket _ _ e ht hlt =>
    intro stack hfits
    have hthreshold := threshold_of_fits hfits hlt
    rw [← hthreshold] at hlt
    have hstep : step limit (.after e stack) .openBracket = .fail .incomplete :=
      endOperand_of_threshold_lt hlt
    simp only [Task.state]
    rw [drop_of_getElem? ht, peak_of_stop]
    · exact (Nat.max_eq_left (Nat.zero_le _)).symm
    · rw [hstep]
      rintro σ' ⟨⟩
  | @roundFails _ _ _ _ e op _ ht hlt _ ih =>
    intro stack hfits
    have hthreshold := threshold_of_fits hfits hlt
    rw [← hthreshold] at hlt
    have hstep : step limit (.after e stack) (.operator op) =
        .next (.before (.binary e op :: stack)) := endOperand_of_threshold_lt hlt
    have hoperand := ih (.binary e op :: stack) (.inl rfl)
    simp only [Task.state, List.length_cons] at hoperand ⊢
    rw [drop_of_getElem? ht, peak_of_step hstep, hoperand]
    simp only [State.depth, peakBehind]
    omega
  | @round _ _ place _ _ _ _ e rhs op _ ht hlt h _ ih ih' =>
    intro stack hfits
    have hthreshold := threshold_of_fits hfits hlt
    rw [← hthreshold] at hlt
    have hstep : step limit (.after e stack) (.operator op) =
        .next (.before (.binary e op :: stack)) := endOperand_of_threshold_lt hlt
    have hoperand := ih (.binary e op :: stack) (.inl rfl)
    have hrest := ih' stack hfits
    have hbehind : ∀ u ∈ (ts.drop place).head?, u.power ≤ (Frame.binary e op).power := by
      intro u hnext
      rw [List.head?_drop] at hnext
      exact h.power_le u hnext
    simp only [Task.state, List.length_cons, peakBehind] at hoperand hrest ⊢
    rw [drop_of_getElem? ht, peak_of_step hstep, hoperand, peak_close (by simp) hbehind]
    simp only [State.depth, Frame.close]
    rw [hrest]
    omega

/-- In a whole formula the reader has as many frames at once as expressions are open. -/
theorem Descent.peak_whole (h : Descent ts (.expression 0) 0 taken depth r) :
    peak 0 (.before []) ts = depth := by
  have hbehind : peakBehind 0 [] ts r = 0 := by
    obtain fault | ⟨e, place⟩ := r
    · rfl
    · have hpower := h.power_le
      simp only [peakBehind]
      cases hnext : ts[place]? with
      | none =>
        rw [List.drop_eq_nil_of_le (List.getElem?_eq_none_iff.mp hnext)]
        rfl
      | some t =>
        have hdone : step 0 (.after e []) t = .done e := if_neg (Nat.not_lt.mpr (hpower t hnext))
        rw [drop_of_getElem? hnext, peak_of_stop]
        · rfl
        · rw [hdone]
          rintro σ' ⟨⟩
  have hpeak : peak 0 (.before []) ts = _ := h.peak_eq [] (.inl rfl)
  rwa [hbehind, Nat.max_zero, List.length_nil, Nat.zero_add] at hpeak

/-- No more expressions are open at once than there are tokens. -/
theorem Descent.depth_le_length (h : Descent ts (.expression limit) 0 taken depth r) :
    depth ≤ ts.length := by
  have horderly := h.isOrderly
  have hinside := horderly.inside (Nat.zero_le _)
  have hshallow := horderly.shallow
  omega

end Orchestrion.Formula
