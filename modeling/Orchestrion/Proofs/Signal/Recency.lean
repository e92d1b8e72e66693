import Orchestrion.Proofs.Signal.Cache
import Orchestrion.Signal.Bank
import Mathlib.Data.List.DropRight
import Mathlib.Data.Finset.Card
import Mathlib.Data.Finset.Dedup

set_option autoImplicit false

/-!
# The most recently used stay

What a cache holds is told by the uses since it was last cleared: a buffer that is put, or
one that is asked for and found, is used.  The pitches that are held are the last ones of
the uses, each taken where it was used last, as many as the limit allows.  A pitch is
therefore held as long as fewer others than that have been used after it.
-/

namespace Orchestrion

/-! ## The last ones of a list -/

namespace Recency

section

variable {γ : Type} {a : γ} {l : List γ} {limit : Option Nat}

/-- The last elements of a list, as many as a limit allows. -/
def latest (limit : Option Nat) (l : List γ) : List γ := limit.elim l l.rtake

@[simp] theorem latest_nil : latest limit ([] : List γ) = [] := by
  cases limit <;> simp [latest, List.rtake]

theorem length_latest_le {n : Nat} (h : n ∈ limit) (l : List γ) : (latest limit l).length ≤ n := by
  cases h
  simp only [latest, Option.elim_some, List.rtake, List.length_drop]
  omega

theorem latest_of_length_le (h : ∀ n ∈ limit, l.length ≤ n) : latest limit l = l := by
  cases limit with
  | none => rfl
  | some n =>
    have hle : l.length ≤ n := h n rfl
    rw [latest, Option.elim_some, List.rtake, Nat.sub_eq_zero_of_le hle, List.drop_zero]

/-- The last ones are all of them, or as many as the limit says. -/
theorem exists_append_latest (limit : Option Nat) (l : List γ) :
    ∃ front, l = front ++ latest limit l ∧ (front = [] ∨ (latest limit l).length ∈ limit) := by
  cases limit with
  | none => exact ⟨[], rfl, .inl rfl⟩
  | some n =>
    refine ⟨l.take (l.length - n), (List.take_append_drop _ _).symm, ?_⟩
    by_cases hle : l.length ≤ n
    · left
      rw [Nat.sub_eq_zero_of_le hle, List.take_zero]
    · right
      simp only [latest, Option.elim_some, List.rtake, List.length_drop, Option.mem_some_iff]
      omega

/-- What stands before the last ones does not matter. -/
theorem latest_append (front : List γ) {n : Nat} (hn : n ∈ limit) (hle : n ≤ l.length) :
    latest limit (front ++ l) = latest limit l := by
  cases hn
  have hdrop : front.length + l.length - n = front.length + (l.length - n) := by omega
  simp only [latest, Option.elim_some, List.rtake, List.length_append, hdrop,
    List.drop_length_add_append]

theorem mem_latest_append_cons {front back : List γ} (h : a ∉ back) :
    a ∈ latest limit (front ++ a :: back) ↔ ∀ n ∈ limit, back.length < n := by
  cases limit with
  | none => simp [latest]
  | some n =>
    simp only [latest, Option.elim_some, List.rtake, List.length_append, List.length_cons,
      Option.mem_some_iff, forall_eq']
    constructor
    · intro hmem
      by_contra hge
      have hdrop : front.length + (back.length + 1) - n =
          front.length + ((back.length - n) + 1) := by omega
      rw [hdrop, List.drop_length_add_append, List.drop_succ_cons] at hmem
      exact h (List.mem_of_mem_drop hmem)
    · intro hlt
      rw [List.drop_append_of_le_length (by omega)]
      exact List.mem_append_right _ List.mem_cons_self

variable [DecidableEq γ]

theorem length_le_filter_ne_succ (h : l.Nodup) (a : γ) :
    l.length ≤ (l.filter (· != a) ++ [a]).length := by
  rw [← h.erase_eq_filter, List.length_append, List.length_singleton, List.length_erase]
  split <;> omega

/-- When one is used, the last ones are those of the last ones before. -/
theorem latest_use (limit : Option Nat) (h : l.Nodup) (a : γ) :
    latest limit (l.filter (· != a) ++ [a]) =
      latest limit ((latest limit l).filter (· != a) ++ [a]) := by
  obtain ⟨front, heq, hfront⟩ := exists_append_latest limit l
  generalize latest limit l = kept at *
  subst heq
  rcases hfront with rfl | hlength
  · rfl
  · rw [List.filter_append, List.append_assoc]
    exact latest_append _ hlength (length_le_filter_ne_succ h.of_append_right a)

/-- When one of the last ones is used, no other one goes. -/
theorem latest_use_of_mem (h : l.Nodup) (hmem : a ∈ latest limit l) :
    latest limit (l.filter (· != a) ++ [a]) = (latest limit l).filter (· != a) ++ [a] := by
  have hnodup : (latest limit l).Nodup := by
    obtain ⟨front, heq, _⟩ := exists_append_latest limit l
    rw [heq] at h
    exact h.of_append_right
  rw [latest_use limit h, latest_of_length_le]
  intro n hn
  have hle := length_latest_le hn l
  have hpos := List.length_pos_of_mem hmem
  rw [← hnodup.erase_eq_filter, List.length_append, List.length_singleton,
    List.length_erase_of_mem hmem]
  omega

/-! ## The last of each -/

/-- Each where it was last: the one that comes once more goes to the end. -/
theorem dedup_concat (l : List γ) (a : γ) :
    (l ++ [a]).dedup = l.dedup.filter (· != a) ++ [a] := by
  induction l with
  | nil => rfl
  | cons b l ih =>
    rw [List.cons_append]
    by_cases hb : b ∈ l
    · rw [List.dedup_cons_of_mem hb, List.dedup_cons_of_mem (List.mem_append_left _ hb), ih]
    · rw [List.dedup_cons_of_notMem hb]
      by_cases hba : b = a
      · subst hba
        rw [List.dedup_cons_of_mem (by simp), ih, List.filter_cons_of_neg (by simp)]
      · rw [List.dedup_cons_of_notMem (by simp [hb, hba]), ih, List.filter_cons_of_pos (by simpa)]
        rfl

theorem dedup_append_cons (front : List γ) {back : List γ} (h : a ∉ back) :
    ∃ t, (front ++ a :: back).dedup = t ++ a :: back.dedup := by
  obtain ⟨t, _, ht⟩ := List.sublist_suffix_of_union front (a :: back).dedup
  refine ⟨t, ?_⟩
  rw [List.dedup_append, ← ht, List.dedup_cons_of_notMem h]

omit [DecidableEq γ] in
/-- The last place of one in a list. -/
theorem exists_append_cons_of_mem (h : a ∈ l) :
    ∃ front back, l = front ++ a :: back ∧ a ∉ back := by
  obtain ⟨back, front, heq, hback⟩ := List.eq_append_cons_of_mem (List.mem_reverse.mpr h)
  refine ⟨front.reverse, back.reverse, ?_, by simpa using hback⟩
  rw [← List.reverse_inj, heq]
  simp

/-- One is among the last of all just when few others come after its last place. -/
theorem mem_latest_dedup_iff : a ∈ latest limit l.dedup ↔
    ∃ front back, l = front ++ a :: back ∧ a ∉ back ∧ ∀ n ∈ limit, back.toFinset.card < n := by
  constructor
  · intro hmem
    obtain ⟨before, heq, _⟩ := exists_append_latest limit l.dedup
    have hdedup : a ∈ l.dedup := heq ▸ List.mem_append_right before hmem
    obtain ⟨front, back, rfl, hback⟩ := exists_append_cons_of_mem (List.mem_dedup.mp hdedup)
    obtain ⟨t, ht⟩ := dedup_append_cons front hback
    rw [ht, mem_latest_append_cons (mt List.mem_dedup.mp hback)] at hmem
    simp only [List.card_toFinset]
    exact ⟨front, back, rfl, hback, hmem⟩
  · rintro ⟨front, back, rfl, hback, hlt⟩
    obtain ⟨t, ht⟩ := dedup_append_cons front hback
    rw [ht, mem_latest_append_cons (mt List.mem_dedup.mp hback)]
    simpa only [List.card_toFinset] using hlt

/-- Each of a list is followed, after its last place, by those that are last after it. -/
theorem pairwise_dedup (l : List γ) :
    l.dedup.Pairwise fun a b => ∃ front back, l = front ++ a :: back ∧ a ∉ back ∧ b ∈ back := by
  induction l with
  | nil => exact .nil
  | cons c l ih =>
    have hrest : l.dedup.Pairwise fun a b =>
        ∃ front back, c :: l = front ++ a :: back ∧ a ∉ back ∧ b ∈ back := by
      refine ih.imp ?_
      rintro a b ⟨front, back, rfl, ha, hb⟩
      exact ⟨c :: front, back, rfl, ha, hb⟩
    by_cases hc : c ∈ l
    · rw [List.dedup_cons_of_mem hc]
      exact hrest
    · rw [List.dedup_cons_of_notMem hc]
      refine .cons (fun b hb => ?_) hrest
      exact ⟨[], l, rfl, hc, List.mem_dedup.mp hb⟩

end

end Recency

namespace PitchCache

variable {β : Type}

/-! ## Histories -/

/-- Something that is asked of a cache. -/
inductive Call (β : Type) where
  | put (pitch : Int) (b : β)
  | get (pitch : Int)
  | contains (pitch : Int)
  | size
  | keys
  | clear

/-- The buffer of a pitch, which is used thereby. -/
def get (c : PitchCache β) (pitch : Int) : Option β × PitchCache β :=
  (c.find? pitch, c.touch pitch)

/-- The cache after a call. -/
def after (c : PitchCache β) : Call β → PitchCache β
  | .put pitch b => c.put pitch b
  | .get pitch => (c.get pitch).2
  | .clear => c.clear
  -- the others only look
  | .contains _ => c
  | .size => c
  | .keys => c

/-- The cache after some calls, one after the other. -/
def afterAll (c : PitchCache β) (calls : List (Call β)) : PitchCache β := calls.foldl after c

/-- Whether a call drops everything. -/
def Call.clears : Call β → Bool
  | .clear => true
  | _ => false

/-- The pitch that a call uses: the one that is put, or asked for and found. -/
def used? (c : PitchCache β) : Call β → Option Int
  | .put pitch _ => some pitch
  | .get pitch => if (c.get pitch).1.isSome then some pitch else none
  | _ => none

/-- The pitches that are used by some calls, one after the other. -/
def uses (c : PitchCache β) : List (Call β) → List Int
  | [] => []
  | call :: rest => (c.used? call).toList ++ (c.after call).uses rest

/-- The calls since everything was last dropped. -/
def sinceClear (calls : List (Call β)) : List (Call β) := calls.rtakeWhile fun call => !call.clears

/-- The buffer that a call puts for a pitch. -/
def Call.buffer? (pitch : Int) : Call β → Option β
  | .put p b => if p = pitch then some b else none
  | _ => none

/-- The buffer that was last put for a pitch. -/
def lastPut? (calls : List (Call β)) (pitch : Int) : Option β :=
  calls.reverse.findSome? (Call.buffer? pitch)

/-- A call that uses nothing and drops nothing leaves the cache as it is. -/
theorem after_of_used?_eq_none {c : PitchCache β} {call : Call β} (hclears : call.clears = false)
    (hused : c.used? call = none) : c.after call = c := by
  cases call with
  | put pitch b => cases hused
  | get pitch =>
    cases hfind : c.find? pitch with
    | none => simp only [after, get, touch, hfind]
    | some b => simp [used?, get, hfind] at hused
  | contains pitch => rfl
  | size => rfl
  | keys => rfl
  | clear => cases hclears

/-! ## One call more -/

theorem afterAll_concat (c : PitchCache β) (calls : List (Call β)) (call : Call β) :
    c.afterAll (calls ++ [call]) = (c.afterAll calls).after call :=
  List.foldl_concat ..

theorem uses_concat (c : PitchCache β) (calls : List (Call β)) (call : Call β) :
    c.uses (calls ++ [call]) = c.uses calls ++ ((c.afterAll calls).used? call).toList := by
  induction calls generalizing c with
  | nil => exact List.append_nil _
  | cons first rest ih =>
    rw [List.cons_append, uses, uses, ih, List.append_assoc]
    rfl

theorem sinceClear_concat {call : Call β} (h : call.clears = false) (calls : List (Call β)) :
    sinceClear (calls ++ [call]) = sinceClear calls ++ [call] :=
  List.rtakeWhile_concat_pos _ _ _ (by simp [h])

theorem sinceClear_concat_clear (calls : List (Call β)) : sinceClear (calls ++ [.clear]) = [] :=
  List.rtakeWhile_concat_neg _ _ _ (by simp [Call.clears])

theorem lastPut?_concat (calls : List (Call β)) (call : Call β) (pitch : Int) :
    lastPut? (calls ++ [call]) pitch = (call.buffer? pitch).or (lastPut? calls pitch) := by
  rw [lastPut?, lastPut?, List.reverse_append, List.findSome?_append]
  cases h : call.buffer? pitch <;> simp [h]

/-! ## The pitches that are held -/

theorem mem_keys_iff {c : PitchCache β} {pitch : Int} :
    pitch ∈ c.keys ↔ c.contains pitch = true := by
  simp [keys, contains]

theorem keys_without (c : PitchCache β) (pitch : Int) :
    (c.without pitch).map Prod.fst = c.keys.filter (· != pitch) := by
  rw [without, keys, List.filter_map]
  rfl

theorem map_fst_evict (limit : Option Nat) (entries : List (Int × β)) :
    (evict (limit.map Int.ofNat) entries).map Prod.fst =
      Recency.latest limit (entries.map Prod.fst) := by
  cases limit with
  | none => rfl
  | some n => simp [evict, Recency.latest, List.rtake, List.map_drop]

theorem keys_put {c : PitchCache β} {limit : Option Nat} (h : c.limit = limit.map Int.ofNat)
    (pitch : Int) (b : β) :
    (c.put pitch b).keys = Recency.latest limit (c.keys.filter (· != pitch) ++ [pitch]) := by
  rw [put, keys, h, map_fst_evict, List.map_append, keys_without]
  rfl

theorem keys_touch {c : PitchCache β} {pitch : Int} {b : β} (h : c.find? pitch = some b) :
    (c.touch pitch).keys = c.keys.filter (· != pitch) ++ [pitch] := by
  simp only [touch, h]
  rw [keys, List.map_append, keys_without]
  rfl

theorem mem_entries_put {c : PitchCache β} {pitch : Int} {b : β} {e : Int × β}
    (h : e ∈ (c.put pitch b).entries) : e = (pitch, b) ∨ e.1 ≠ pitch ∧ e ∈ c.entries := by
  have hmem : e ∈ c.without pitch ++ [(pitch, b)] := by
    unfold put evict at h
    split at h
    · exact List.mem_of_mem_drop h
    · exact h
  rcases List.mem_append.mp hmem with hmem | hmem
  · exact .inr ⟨fst_ne_of_mem_without hmem, (List.mem_filter.mp hmem).1⟩
  · exact .inl (List.mem_singleton.mp hmem)

/-! ## What a history leaves -/

/-- A cache that some calls have left of an empty one. -/
structure Recent (limit : Option Nat) (calls : List (Call β)) (c : PitchCache β) : Prop where
  limit_eq : c.limit = limit.map Int.ofNat
  /-- what was before everything was dropped does not matter -/
  since : (empty (limit.map Int.ofNat)).afterAll (sinceClear calls) = c
  /-- the last ones of the uses are held -/
  keys_eq : c.keys =
    Recency.latest limit ((empty (limit.map Int.ofNat)).uses (sinceClear calls)).dedup
  last_put : ∀ e ∈ c.entries, lastPut? calls e.1 = some e.2
  put_of_used : ∀ pitch ∈ (empty (limit.map Int.ofNat)).uses (sinceClear calls),
    ∃ b, .put pitch b ∈ sinceClear calls

namespace Recent

variable {limit : Option Nat} {calls : List (Call β)} {c : PitchCache β} {call : Call β}

theorem start (limit : Option Nat) :
    Recent limit ([] : List (Call β)) (empty (limit.map Int.ofNat)) where
  limit_eq := rfl
  since := rfl
  keys_eq := Recency.latest_nil.symm
  last_put e he := by cases he
  put_of_used pitch h := by cases h

/-- A call that drops everything. -/
theorem clear (h : Recent limit calls c) : Recent limit (calls ++ [.clear]) c.clear where
  limit_eq := h.limit_eq
  since := by
    rw [sinceClear_concat_clear, PitchCache.clear, h.limit_eq]
    rfl
  keys_eq := by
    rw [sinceClear_concat_clear]
    exact Recency.latest_nil.symm
  last_put e he := by cases he
  put_of_used pitch hused := by
    rw [sinceClear_concat_clear] at hused
    cases hused

theorem since_concat (h : Recent limit calls c) (hclears : call.clears = false) :
    (empty (limit.map Int.ofNat)).afterAll (sinceClear (calls ++ [call])) = c.after call := by
  rw [sinceClear_concat hclears, afterAll_concat, h.since]

theorem uses_since_concat (h : Recent limit calls c) (hclears : call.clears = false) :
    (empty (limit.map Int.ofNat)).uses (sinceClear (calls ++ [call])) =
      (empty (limit.map Int.ofNat)).uses (sinceClear calls) ++ (c.used? call).toList := by
  rw [sinceClear_concat hclears, uses_concat, h.since]

/-- A call that uses nothing and drops nothing. -/
theorem look (h : Recent limit calls c) (hclears : call.clears = false)
    (hused : c.used? call = none) (hafter : c.after call = c)
    (hput : ∀ pitch, call.buffer? pitch = none) : Recent limit (calls ++ [call]) c := by
  have huses := h.uses_since_concat hclears
  rw [hused, Option.toList_none, List.append_nil] at huses
  constructor
  case limit_eq => exact h.limit_eq
  case since => rw [h.since_concat hclears, hafter]
  case keys_eq => rw [huses, h.keys_eq]
  case last_put =>
    intro e he
    rw [lastPut?_concat, hput, Option.none_or]
    exact h.last_put e he
  case put_of_used =>
    rw [huses, sinceClear_concat hclears]
    intro pitch hpitch
    obtain ⟨b, hb⟩ := h.put_of_used pitch hpitch
    exact ⟨b, List.mem_append_left _ hb⟩

theorem mem_uses (h : Recent limit calls c) {pitch : Int} (hpitch : pitch ∈ c.keys) :
    pitch ∈ (empty (limit.map Int.ofNat)).uses (sinceClear calls) := by
  obtain ⟨front, heq, _⟩ := Recency.exists_append_latest limit
    ((empty (limit.map Int.ofNat)).uses (sinceClear calls)).dedup
  rw [← List.mem_dedup, heq, ← h.keys_eq]
  exact List.mem_append_right front hpitch

/-- A buffer that is put. -/
theorem put (h : Recent limit calls c) (pitch : Int) (b : β) :
    Recent limit (calls ++ [.put pitch b]) (c.put pitch b) := by
  have huses : (empty (limit.map Int.ofNat)).uses (sinceClear (calls ++ [.put pitch b])) = _ :=
    h.uses_since_concat rfl
  rw [show (c.used? (.put pitch b)).toList = [pitch] from rfl] at huses
  constructor
  case limit_eq => exact h.limit_eq
  case since => exact h.since_concat rfl
  case keys_eq =>
    rw [huses, Recency.dedup_concat, Recency.latest_use limit (List.nodup_dedup _), ← h.keys_eq,
      keys_put h.limit_eq]
  case last_put =>
    intro e he
    rw [lastPut?_concat]
    rcases mem_entries_put he with rfl | ⟨hne, he⟩
    · simp [Call.buffer?]
    · rw [Call.buffer?, if_neg hne.symm, Option.none_or]
      exact h.last_put e he
  case put_of_used =>
    rw [huses, sinceClear_concat rfl]
    intro other hother
    rcases List.mem_append.mp hother with hother | hother
    · obtain ⟨b', hb'⟩ := h.put_of_used other hother
      exact ⟨b', List.mem_append_left _ hb'⟩
    · rw [List.mem_singleton.mp hother]
      exact ⟨b, List.mem_append_right _ List.mem_cons_self⟩

/-- A buffer that is asked for and found. -/
theorem get {pitch : Int} {b : β} (h : Recent limit calls c) (hfind : c.find? pitch = some b) :
    Recent limit (calls ++ [.get pitch]) (c.touch pitch) := by
  have huses : (empty (limit.map Int.ofNat)).uses (sinceClear (calls ++ [.get pitch])) = _ :=
    h.uses_since_concat rfl
  rw [show c.used? (.get pitch) = some pitch by simp [used?, PitchCache.get, hfind],
    Option.toList_some] at huses
  have hpitch : pitch ∈ c.keys := List.mem_map_of_mem (mem_of_find? hfind)
  constructor
  case limit_eq => rw [limit_touch, h.limit_eq]
  case since => exact h.since_concat rfl
  case keys_eq =>
    have hlatest : pitch ∈ Recency.latest limit
        ((empty (limit.map Int.ofNat)).uses (sinceClear calls)).dedup := h.keys_eq ▸ hpitch
    rw [huses, Recency.dedup_concat, Recency.latest_use_of_mem (List.nodup_dedup _) hlatest,
      ← h.keys_eq, keys_touch hfind]
  case last_put =>
    intro e he
    rw [lastPut?_concat]
    exact h.last_put e (mem_of_mem_touch he)
  case put_of_used =>
    rw [huses, sinceClear_concat rfl]
    intro other hother
    have hmem : other ∈ (empty (limit.map Int.ofNat)).uses (sinceClear calls) := by
      rcases List.mem_append.mp hother with hother | hother
      · exact hother
      · rw [List.mem_singleton.mp hother]
        exact h.mem_uses hpitch
    obtain ⟨b', hb'⟩ := h.put_of_used other hmem
    exact ⟨b', List.mem_append_left _ hb'⟩

/-- Any call. -/
theorem after (h : Recent limit calls c) (call : Call β) :
    Recent limit (calls ++ [call]) (c.after call) := by
  cases call with
  | put pitch b => exact h.put pitch b
  | get pitch =>
    cases hfind : c.find? pitch with
    | some b => exact h.get hfind
    | none =>
      have hused : c.used? (.get pitch) = none := by simp [used?, PitchCache.get, hfind]
      have hafter := after_of_used?_eq_none rfl hused
      rw [hafter]
      exact h.look rfl hused hafter fun _ => rfl
  | contains pitch => exact h.look rfl rfl rfl fun _ => rfl
  | size => exact h.look rfl rfl rfl fun _ => rfl
  | keys => exact h.look rfl rfl rfl fun _ => rfl
  | clear => exact h.clear

end Recent

/-- Any number of calls. -/
theorem recent_afterAll (limit : Option Nat) (calls : List (Call β)) :
    Recent limit calls ((empty (limit.map Int.ofNat)).afterAll calls) := by
  induction calls using List.reverseRecOn with
  | nil => exact .start limit
  | append_singleton calls call ih =>
    rw [afterAll_concat]
    exact ih.after call

/-- **A cache keeps the most recently used.**  After any calls of an empty cache, a pitch
is held just when it has been put since the cache was last cleared and fewer others than
the limit have been used after its last use.  Then it gives the buffer that was last put
for it, and none otherwise.  The pitches are listed once each, in the order of their last
uses, and are never more than the limit.  A call that uses nothing changes nothing,
unless it clears the cache. -/
theorem keeps_most_recent (limit : Option Nat) (calls : List (Call β)) :
    let c : PitchCache β := (empty (limit.map Int.ofNat)).afterAll calls
    let used := (empty (limit.map Int.ofNat)).uses (sinceClear calls)
    (∀ pitch, c.contains pitch = true ↔
      (∃ b, .put pitch b ∈ sinceClear calls) ∧ ∃ front back, used = front ++ pitch :: back ∧
        pitch ∉ back ∧ ∀ n ∈ limit, back.toFinset.card < n) ∧
    (∀ pitch, c.contains pitch = true →
      ∃ b, lastPut? calls pitch = some b ∧ (c.get pitch).1 = some b) ∧
    (∀ pitch, c.contains pitch = false → (c.get pitch).1 = none) ∧
    (c.keys.Nodup ∧ (∀ pitch, pitch ∈ c.keys ↔ c.contains pitch = true) ∧
      c.keys.Pairwise fun p q => ∃ front back, used = front ++ p :: back ∧ p ∉ back ∧ q ∈ back) ∧
    (c.size = c.keys.length ∧ ∀ n ∈ limit, c.size ≤ n) ∧
    (∀ call, call.clears = false → c.used? call = none → c.after call = c) := by
  intro c used
  have h : Recent limit calls c := recent_afterAll limit calls
  have hkeys : c.keys = Recency.latest limit used.dedup := h.keys_eq
  have hsuffix : c.keys <:+ used.dedup := by
    obtain ⟨front, heq, _⟩ := Recency.exists_append_latest limit used.dedup
    exact ⟨front, by rw [hkeys, ← heq]⟩
  have hsize : c.size = c.keys.length := (List.length_map _).symm
  refine ⟨fun pitch => ?_, fun pitch hpitch => ?_, fun pitch hpitch => ?_,
    ⟨(List.nodup_dedup used).sublist hsuffix.sublist, fun _ => mem_keys_iff,
      (Recency.pairwise_dedup used).sublist hsuffix.sublist⟩,
    ⟨hsize, fun n hn => ?_⟩, fun _ => after_of_used?_eq_none⟩
  · rw [← mem_keys_iff, hkeys, Recency.mem_latest_dedup_iff]
    constructor
    · rintro ⟨front, back, heq, hrest⟩
      have hmem : pitch ∈ used := heq ▸ List.mem_append_right front List.mem_cons_self
      exact ⟨h.put_of_used pitch hmem, front, back, heq, hrest⟩
    · exact And.right
  · cases hfind : c.find? pitch with
    | none =>
      rw [find?_eq_none_iff.mp hfind] at hpitch
      cases hpitch
    | some b => exact ⟨b, h.last_put (pitch, b) (mem_of_find? hfind), hfind⟩
  · exact find?_eq_none_iff.mpr hpitch
  · rw [hsize, hkeys]
    exact Recency.length_latest_le hn _

/-- With room for two, the one that was asked for stays and the other one goes. -/
example : ((empty (some 2)).afterAll
    [.put 60 'a', .put 62 'b', .get 60, .put 64 'c', .contains 62]).keys = [60, 64] := by
  decide

end PitchCache

end Orchestrion
