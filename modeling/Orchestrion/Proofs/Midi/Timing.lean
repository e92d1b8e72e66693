import Orchestrion.Midi.Timing
import Orchestrion.Proofs.Binary64.Bounds
import Orchestrion.Proofs.Midi.Reader

set_option autoImplicit false

/-!
# What can be wrong with the times of a file

No event is later than the end of the longest track, and if that track has any ticks, some
event comes later than the one before it.  A time between two events can be computed unless
a beat has no ticks, and it is as long as its ticks let it be, since a tempo has three bytes.
-/

namespace Orchestrion.Midi

open Binary64

/-! ## Ticks -/

/-- The ticks of a track. -/
def Track.ticks (t : Track) : Nat := (t.map TimedEvent.ticks).sum

/-- The ticks of the longest track of a file. -/
def File.ticks (file : File) : Nat := (file.tracks.map Track.ticks).foldr max 0

theorem ticks_le_of_mem_absolute {e : TimedEvent} {now : Nat} {t : Track}
    (h : e ∈ absolute now t) : e.ticks ≤ now + Track.ticks t := by
  induction t generalizing now with
  | nil => cases h
  | cons e' rest ih =>
    simp only [Track.ticks, List.map_cons, List.sum_cons] at ih ⊢
    rcases List.mem_cons.mp h with rfl | hrest
    · dsimp only
      omega
    · have := ih hrest
      omega

theorem event_of_mem_absolute {e : TimedEvent} {now : Nat} {t : Track}
    (h : e ∈ absolute now t) : ∃ e' ∈ t, e'.event = e.event := by
  induction t generalizing now with
  | nil => cases h
  | cons e' rest ih =>
    rcases List.mem_cons.mp h with rfl | hrest
    · exact ⟨e', List.mem_cons_self, rfl⟩
    · obtain ⟨e'', hmem, hevent⟩ := ih hrest
      exact ⟨e'', List.mem_cons_of_mem _ hmem, hevent⟩

/-- A track with ticks has an event at its end. -/
theorem exists_mem_absolute (now : Nat) {t : Track} (h : t ≠ []) :
    ∃ e ∈ absolute now t, e.ticks = now + Track.ticks t := by
  induction t generalizing now with
  | nil => exact absurd rfl h
  | cons e rest ih =>
    simp only [Track.ticks, List.map_cons, List.sum_cons] at ih ⊢
    rcases List.eq_nil_or_concat' rest with rfl | ⟨_, _, hrest⟩
    · exact ⟨_, List.mem_cons_self, rfl⟩
    · obtain ⟨e', hmem, hticks⟩ := ih (now + e.ticks) (by simp [hrest])
      exact ⟨e', List.mem_cons_of_mem _ hmem, by omega⟩

theorem mem_merged {e : TimedEvent} {tracks : List Track} :
    e ∈ merged tracks ↔ ∃ t ∈ tracks, e ∈ absolute 0 t := by
  rw [merged, List.mem_mergeSort, List.mem_flatMap]

theorem ticks_le_of_mem_merged {file : File} {e : TimedEvent} (h : e ∈ merged file.tracks) :
    e.ticks ≤ file.ticks := by
  obtain ⟨t, ht, he⟩ := mem_merged.mp h
  have hlength := ticks_le_of_mem_absolute he
  rw [Nat.zero_add] at hlength
  have hmax : Track.ticks t ≤ file.ticks :=
    List.le_max_of_le' 0 (List.mem_map_of_mem ht) le_rfl
  exact hlength.trans hmax

theorem exists_mem_merged {file : File} (h : 0 < file.ticks) :
    ∃ e ∈ merged file.tracks, 0 < e.ticks := by
  obtain ⟨t, ht, hpos⟩ : ∃ t ∈ file.tracks, 0 < Track.ticks t := by
    by_contra hnone
    refine absurd h (not_lt.mpr (List.max_le_of_forall_le _ 0 fun n hn => ?_))
    obtain ⟨t, ht, rfl⟩ := List.mem_map.mp hn
    exact not_lt.mp fun hpos => hnone ⟨t, ht, hpos⟩
  have hne : t ≠ [] := by
    rintro rfl
    exact absurd hpos (Nat.lt_irrefl 0)
  obtain ⟨e, he, hticks⟩ := exists_mem_absolute 0 hne
  exact ⟨e, mem_merged.mpr ⟨t, ht, he⟩, by omega⟩

theorem pairwise_merged (tracks : List Track) :
    (merged tracks).Pairwise fun e f => e.ticks ≤ f.ticks := by
  have htrans (a b c : TimedEvent) (hab : decide (a.ticks ≤ b.ticks) = true)
      (hbc : decide (b.ticks ≤ c.ticks) = true) : decide (a.ticks ≤ c.ticks) = true :=
    decide_eq_true ((of_decide_eq_true hab).trans (of_decide_eq_true hbc))
  have htotal (a b : TimedEvent) :
      (decide (a.ticks ≤ b.ticks) || decide (b.ticks ≤ a.ticks)) = true := by
    simpa using Nat.le_total a.ticks b.ticks
  exact (List.pairwise_mergeSort htrans htotal _).imp of_decide_eq_true

theorem ticks_le_of_mem_relative {e : TimedEvent} {last now n : Nat} {es : List TimedEvent}
    (hnow : now ≤ n) (hes : ∀ x ∈ es, x.ticks ≤ n) (h : e ∈ relative last now es) :
    e.ticks ≤ n := by
  induction es generalizing last now with
  | nil =>
    obtain rfl := List.mem_singleton.mp h
    exact (Nat.sub_le now last).trans hnow
  | cons x rest ih =>
    obtain ⟨hx, hrest⟩ := List.forall_mem_cons.mp hes
    unfold relative at h
    split at h
    · exact ih hx hrest h
    · rcases List.mem_cons.mp h with rfl | hmem
      · exact (Nat.sub_le x.ticks last).trans hx
      · exact ih hx hrest hmem

theorem isWritten_of_mem_relative {e : TimedEvent} {last now : Nat} {es : List TimedEvent}
    (hes : ∀ x ∈ es, x.event.IsWritten) (h : e ∈ relative last now es) : e.event.IsWritten := by
  induction es generalizing last now with
  | nil =>
    obtain rfl := List.mem_singleton.mp h
    exact nofun
  | cons x rest ih =>
    obtain ⟨hx, hrest⟩ := List.forall_mem_cons.mp hes
    unfold relative at h
    split at h
    · exact ih hrest h
    · rcases List.mem_cons.mp h with rfl | hmem
      · exact hx
      · exact ih hrest hmem

/-- Where no event comes later than the one before it, all are at one time. -/
theorem ticks_le_of_relative_still {last now : Nat} {es : List TimedEvent}
    (hes : es.Pairwise fun e f => e.ticks ≤ f.ticks)
    (h : ∀ e ∈ relative last now es, e.ticks = 0) :
    (∀ x ∈ es, x.ticks ≤ last) ∧ (es = [] → now ≤ last) := by
  induction es generalizing last now with
  | nil =>
    have hend := h _ (List.mem_singleton_self _)
    exact ⟨nofun, fun _ => Nat.sub_eq_zero_iff_le.mp hend⟩
  | cons x rest ih =>
    obtain ⟨hfirst, hordered⟩ := List.pairwise_cons.mp hes
    refine ⟨?_, nofun⟩
    unfold relative at h
    split at h
    case h_1 =>
      -- the end of a track is left out, but what follows it is no earlier
      obtain ⟨hrest, hnone⟩ := ih hordered h
      refine List.forall_mem_cons.mpr ⟨?_, hrest⟩
      cases rest with
      | nil => exact hnone rfl
      | cons y rest => exact (hfirst y List.mem_cons_self).trans (hrest y List.mem_cons_self)
    case h_2 =>
      obtain ⟨hx, hlater⟩ := List.forall_mem_cons.mp h
      have hle : x.ticks ≤ last := Nat.sub_eq_zero_iff_le.mp hx
      exact List.forall_mem_cons.mpr ⟨hle, fun y hy => ((ih hordered hlater).1 y hy).trans hle⟩

/-- The events of a file, as they are played one after the other. -/
def File.played (file : File) : List TimedEvent := relative 0 0 (merged file.tracks)

theorem ticks_le_of_mem_played {file : File} {e : TimedEvent} (h : e ∈ file.played) :
    e.ticks ≤ file.ticks :=
  ticks_le_of_mem_relative (Nat.zero_le _) (fun _ => ticks_le_of_mem_merged) h

theorem exists_mem_played {file : File} (h : 0 < file.ticks) : ∃ e ∈ file.played, 0 < e.ticks := by
  by_contra hnone
  have hstill : ∀ e ∈ file.played, e.ticks = 0 := fun e he =>
    Nat.eq_zero_of_not_pos fun hpos => hnone ⟨e, he, hpos⟩
  obtain ⟨e, he, hpos⟩ := exists_mem_merged h
  have hzero := (ticks_le_of_relative_still (pairwise_merged file.tracks) hstill).1 e he
  omega

theorem isWritten_of_mem_played {file : File} (hfile : ∀ t ∈ file.tracks, Track.IsWritten t)
    {e : TimedEvent} (h : e ∈ file.played) : e.event.IsWritten := by
  refine isWritten_of_mem_relative (fun x hx => ?_) h
  obtain ⟨t, ht, hx⟩ := mem_merged.mp hx
  obtain ⟨e', he', hevent⟩ := event_of_mem_absolute hx
  exact hevent ▸ hfile t ht e' he'

/-! ## Seconds -/

theorem tempoAfter_lt {tempo : Nat} {event : Event} (htempo : tempo < Nat.pow 256 3)
    (h : event.IsWritten) : event.tempoAfter tempo < Nat.pow 256 3 := by
  cases event with
  | tempo beat => exact h beat rfl
  | message m => exact htempo
  | endOfTrack => exact htempo

variable {tempo ticks : Nat} {beat : Int}

/-- The ticks of a beat, as they are written in two bytes. -/
def IsBeat (beat : Int) : Prop := |beat| ≤ 2 ^ 15

theorem within_millionth : Within 0 1e-6 := by
  have h : ofFloat 1e-6 = .finite false 4722366482869645 (-72) := by decide +kernel
  refine within_iff.mpr ⟨4722366482869645 * 2 ^ (-72 : ℤ), ?_, ?_⟩
  · rw [h, value_positive]
    norm_num
  · rw [abs_of_nonneg (by positivity), pow_zero]
    norm_num

/-- The beginning of the computation of a time. -/
theorem exists_within_tempo (h : tempo < Nat.pow 256 3) :
    ∃ x : Float, Scalar.ofInt tempo = .ok x ∧ Within 24 (x * 1e-6) := by
  have hle : |(tempo : Int)| ≤ 2 ^ 24 := by
    have hlimit : Nat.pow 256 3 = 2 ^ 24 := rfl
    rw [abs_of_nonneg (Int.natCast_nonneg _)]
    exact_mod_cast (hlimit ▸ h).le
  obtain ⟨x, hx, hwithin⟩ := exists_within_ofInt (by norm_num) hle
  exact ⟨x, hx, hwithin.mul within_millionth (by norm_num)⟩

/-- The ticks of a beat become the number that they are. -/
theorem exists_value_beat (h : IsBeat beat) :
    ∃ x : Float, Scalar.ofInt beat = .ok x ∧ value (ofFloat x) = some ↑(beat : ℝ) := by
  have hvalue := value_ofInt beat
  rw [nearest_intCast (h.trans (by norm_num))] at hvalue
  exact ⟨_, if_neg (not_isInf_of_value hvalue), hvalue⟩

/-- Where a beat has ticks, so have they a time. -/
theorem exists_tick (htempo : tempo < Nat.pow 256 3) (hbeat : IsBeat beat) (hne : beat ≠ 0) :
    ∃ tick : Float, Within 24 tick ∧ ∀ ticks : Nat, ticks ≠ 0 →
      secondsOf tempo beat ticks = (Scalar.ofInt ticks).map (· * tick) := by
  obtain ⟨x, hx, hwithin⟩ := exists_within_tempo htempo
  obtain ⟨b, hb, hvalue⟩ := exists_value_beat hbeat
  have hone : (1 : ℝ) ≤ |(beat : ℝ)| := by exact_mod_cast Int.one_le_abs hne
  have hzero : Scalar.eq b 0.0 = false := by
    refine Bool.eq_false_iff.mpr fun heq => hne ?_
    have := (Scalar.Faithful.eq_of_values hvalue Scalar.Faithful.value_zero).mp heq
    exact_mod_cast this
  refine ⟨x * 1e-6 / b, hwithin.div hvalue hone (by norm_num), fun ticks hticks => ?_⟩
  have hquotient : Scalar.quotient (x * 1e-6) b = .ok (x * 1e-6 / b) := by
    rw [Scalar.quotient, hzero]
    rfl
  unfold secondsOf
  rw [if_neg hticks, hx, hb]
  show Scalar.quotient (x * 1e-6) b >>= _ = _
  rw [hquotient]
  show Scalar.ofInt ticks >>= _ = _
  cases (Scalar.ofInt ticks : Except ArithFault Float) <;> rfl

theorem secondsOf_zero (tempo : Nat) (beat : Int) :
    secondsOf tempo beat 0 = (.ok 0.0 : Except ArithFault Float) := rfl

/-- Where a beat has no ticks, no ticks have a time. -/
theorem secondsOf_no_beat (htempo : tempo < Nat.pow 256 3) (hticks : ticks ≠ 0) :
    (secondsOf tempo 0 ticks : Except ArithFault Float) = .error .divisionByZero := by
  obtain ⟨x, hx, -⟩ := exists_within_tempo htempo
  obtain ⟨b, hb, hvalue⟩ := exists_value_beat (show IsBeat 0 by norm_num [IsBeat])
  have hzero : Scalar.eq b 0.0 = true := by
    rw [Scalar.Faithful.eq_of_values hvalue Scalar.Faithful.value_zero, Int.cast_zero]
    rfl
  have hquotient : Scalar.quotient (x * 1e-6) b = .error .divisionByZero := by
    rw [Scalar.quotient, hzero]
    rfl
  unfold secondsOf
  rw [if_neg hticks, hx, hb]
  show Scalar.quotient (x * 1e-6) b >>= _ = _
  rw [hquotient]
  rfl

theorem exists_within_secondsOf {j : Nat} (htempo : tempo < Nat.pow 256 3) (hbeat : IsBeat beat)
    (hne : beat ≠ 0 ∨ ticks = 0) (hticks : ticks ≤ 2 ^ j) (hj : j + 24 ≤ 1023) :
    ∃ delta : Float, secondsOf tempo beat ticks = .ok delta ∧ Within (j + 24) delta := by
  rcases eq_or_ne ticks 0 with rfl | hpos
  · exact ⟨0.0, secondsOf_zero tempo beat, within_zero _⟩
  · obtain ⟨tick, hwithin, htick⟩ := exists_tick htempo hbeat (hne.resolve_right hpos)
    have hle : |(ticks : Int)| ≤ 2 ^ j := by
      rw [Int.abs_natCast]
      exact_mod_cast hticks
    obtain ⟨n, hn, hbound⟩ := exists_within_ofInt (by omega) hle
    refine ⟨n * tick, ?_, hbound.mul hwithin hj⟩
    rw [htick ticks hpos, hn]
    rfl

/-- A time is a number, unless a beat has no ticks, or the time is out of range. -/
theorem secondsOf_cases (ticks : Nat) (htempo : tempo < Nat.pow 256 3) (hbeat : IsBeat beat) :
    (∃ (delta : Float) (c : EReal), secondsOf tempo beat ticks = .ok delta ∧
        value (ofFloat delta) = some c) ∨
      (secondsOf tempo beat ticks : Except ArithFault Float) = .error .overflow ∨
      ((secondsOf tempo beat ticks : Except ArithFault Float) = .error .divisionByZero ∧
        beat = 0 ∧ 0 < ticks) := by
  rcases eq_or_ne ticks 0 with rfl | hpos
  · exact .inl ⟨0.0, 0, secondsOf_zero tempo beat, Scalar.Faithful.value_zero (α := Float)⟩
  · rcases eq_or_ne beat 0 with rfl | hne
    · exact .inr (.inr ⟨secondsOf_no_beat htempo hpos, rfl, Nat.pos_of_ne_zero hpos⟩)
    · obtain ⟨tick, ⟨a, ha, -⟩, htick⟩ := exists_tick htempo hbeat hne
      rw [htick ticks hpos]
      rcases ofInt_cases ticks with hover | ⟨n, hn⟩
      · rw [hover]
        exact .inr (.inl rfl)
      · obtain ⟨b, hb, -⟩ := exists_coe_of_ofInt hn
        rw [hn]
        exact .inl ⟨n * tick, _, rfl, value_mul hb ha⟩

/-! ## Messages -/

/-- Where the events of a file stop to have times. -/
theorem messagesFrom_cases {es : List TimedEvent} (htempo : tempo < Nat.pow 256 3)
    (hbeat : IsBeat beat) (hes : ∀ e ∈ es, e.event.IsWritten) :
    (∀ m ∈ (messagesFrom beat tempo es).1, ∃ c, value (ofFloat m.delta) = some c) ∧
      ((messagesFrom (α := Float) beat tempo es).2 = none ∨
        (messagesFrom (α := Float) beat tempo es).2 = some .overflow ∨
        (messagesFrom (α := Float) beat tempo es).2 = some .divisionByZero ∧ beat = 0 ∧
          ∃ e ∈ es, 0 < e.ticks) := by
  induction es generalizing tempo with
  | nil => exact ⟨nofun, .inl rfl⟩
  | cons e rest ih =>
    obtain ⟨he, hrest⟩ := List.forall_mem_cons.mp hes
    unfold messagesFrom
    rcases secondsOf_cases e.ticks htempo hbeat with
      ⟨delta, c, hdelta, hc⟩ | hover | ⟨hzero, hnone, hpos⟩
    · obtain ⟨hvalues, hstop⟩ := ih (tempoAfter_lt htempo he) hrest
      rw [hdelta]
      refine ⟨List.forall_mem_cons.mpr ⟨⟨c, hc⟩, hvalues⟩, ?_⟩
      refine hstop.imp_right (Or.imp_right ?_)
      rintro ⟨hstop, hnone, e', he', hpos⟩
      exact ⟨hstop, hnone, e', List.mem_cons_of_mem _ he', hpos⟩
    · rw [hover]
      exact ⟨nofun, .inr (.inl rfl)⟩
    · rw [hzero]
      exact ⟨nofun, .inr (.inr ⟨rfl, hnone, e, List.mem_cons_self, hpos⟩)⟩

/-- Where the ticks of the events are bounded, so are the times of the messages, and the only
thing that can go wrong is that there are no ticks in a beat but between two events. -/
theorem messagesFrom_bounded {es : List TimedEvent} {j : Nat} (htempo : tempo < Nat.pow 256 3)
    (hbeat : IsBeat beat) (hes : ∀ e ∈ es, e.event.IsWritten ∧ e.ticks ≤ 2 ^ j)
    (hj : j + 24 ≤ 1023) :
    (∀ m ∈ (messagesFrom beat tempo es).1, Within (j + 24) m.delta) ∧
      ((beat = 0 ∧ ∃ e ∈ es, 0 < e.ticks) ∧
          (messagesFrom (α := Float) beat tempo es).2 = some .divisionByZero ∨
        ¬(beat = 0 ∧ ∃ e ∈ es, 0 < e.ticks) ∧
          (messagesFrom (α := Float) beat tempo es).2 = none) := by
  induction es generalizing tempo with
  | nil => exact ⟨nofun, .inr ⟨fun ⟨_, _, hmem, _⟩ => (List.not_mem_nil hmem), rfl⟩⟩
  | cons e rest ih =>
    obtain ⟨⟨he, hticks⟩, hrest⟩ := List.forall_mem_cons.mp hes
    unfold messagesFrom
    by_cases hnone : beat = 0 ∧ e.ticks ≠ 0
    · obtain ⟨rfl, hpos⟩ := hnone
      rw [secondsOf_no_beat htempo hpos]
      exact ⟨nofun, .inl ⟨⟨rfl, e, List.mem_cons_self, Nat.pos_of_ne_zero hpos⟩, rfl⟩⟩
    · have hne : beat ≠ 0 ∨ e.ticks = 0 := by tauto
      obtain ⟨delta, hdelta, hwithin⟩ := exists_within_secondsOf htempo hbeat hne hticks hj
      obtain ⟨hvalues, hstop⟩ := ih (tempoAfter_lt htempo he) hrest
      have hiff : (beat = 0 ∧ ∃ e' ∈ e :: rest, 0 < e'.ticks) ↔
          beat = 0 ∧ ∃ e' ∈ rest, 0 < e'.ticks := by
        rw [List.exists_mem_cons_iff]
        have hstill : beat = 0 → ¬0 < e.ticks := fun hbeat =>
          Nat.not_lt.mpr (hne.resolve_left fun h => h hbeat).le
        tauto
      rw [hdelta, hiff]
      exact ⟨List.forall_mem_cons.mpr ⟨hwithin, hvalues⟩, hstop⟩

end Orchestrion.Midi
