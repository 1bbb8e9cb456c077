import SealedDrive.Listing.Round

/-!
Passers beside a listing. Whoever only waits for a time has one turn before and one after. The first
turn may be long in coming, but no time passes before it, so the last one comes when the time is
over, whatever the others do in between.
-/

namespace SealedDrive

variable {ι σ α : Type}

/-! ## Lines -/

namespace Line

variable {l l' : Line ι} {stand : Passer → ι} {millis : Nat}

/-- Whoever stood in a line is still there, and so is whoever was asleep. -/
structure Grows (l l' : Line ι) : Prop where
  ready : l.ready ⊆ l'.ready
  asleep : l.asleep ⊆ l'.asleep

theorem Grows.refl (l : Line ι) : l.Grows l := ⟨fun _ h => h, fun _ h => h⟩

theorem Grows.trans {l'' : Line ι} (h : l.Grows l') (h' : l'.Grows l'') : l.Grows l'' :=
  ⟨fun _ hm => h'.ready (h.ready hm), fun _ hm => h'.asleep (h.asleep hm)⟩

theorem grows_join (i : ι) (l : Line ι) : l.Grows (l.join i) :=
  ⟨List.subset_append_left _ _, fun _ h => h⟩

theorem grows_doze (millis : Nat) (i : ι) (l : Line ι) : l.Grows (l.doze millis i) :=
  ⟨fun _ h => h, List.subset_append_left _ _⟩

theorem grows_pass (stand : Passer → ι) (waits : Passer) (l : Line ι) :
    l.Grows (waits.pass stand l) := by
  cases waits with
  | nil => exact .refl l
  | cons millis rest => exact grows_doze millis (stand rest) l

/-- Some passer has its last turn after so many milliseconds: it is asleep for as long, or it stands
in line to begin that wait. -/
def Expects (stand : Passer → ι) (millis : Nat) (l : Line ι) : Prop :=
  stand [millis] ∈ l.ready ∨ (millis, stand []) ∈ l.asleep

section

variable {turn : ι → Line ι → σ → Line ι × σ}

/-- The passer may have its turn, and those of the others do not concern it. -/
theorem Expects.turns (h : l.Expects stand millis)
    (hgrows : ∀ i (l : Line ι) s, l.Grows (turn i l s).1)
    (hpass : ∀ l s, (millis, stand []) ∈ (turn (stand [millis]) l s).1.asleep) (count : Nat)
    (s : σ) : (l.turns turn count s).1.Expects stand millis := by
  induction count generalizing l s with
  | zero => exact h
  | succ count ih =>
    unfold Line.turns
    split
    · exact h
    · next i rest hready =>
      have hnext : (turn i { l with ready := rest } s).1.Expects stand millis := by
        rcases h with h | h
        · rw [hready] at h
          rcases List.mem_cons.mp h with rfl | h
          · exact .inr (hpass _ _)
          · exact .inl ((hgrows _ _ _).ready h)
        · exact .inr ((hgrows _ _ _).asleep h)
      exact ih hnext _

theorem Expects.elapse (h : l.Expects stand millis) {spent : Nat}
    (hready : stand [millis] ∈ l.ready → spent = 0) (hlt : spent < millis) :
    (l.elapse spent).Expects stand (millis - spent) := by
  unfold Line.elapse Expects
  simp only [List.partition_eq_filter_filter]
  rcases h with h | h
  · rw [hready h]
    exact .inl (List.mem_append_left _ h)
  · refine .inr (List.mem_map.mpr ⟨_, List.mem_filter.mpr ⟨h, ?_⟩, rfl⟩)
    simpa using hlt

theorem Expects.round (h : l.Expects stand millis)
    (hgrows : ∀ i (l : Line ι) s, l.Grows (turn i l s).1)
    (hpass : ∀ l s, (millis, stand []) ∈ (turn (stand [millis]) l s).1.asleep)
    (hlt : 0 < millis) (s : σ) : (l.round turn s).1.Expects stand millis :=
  (Expects.turns h hgrows hpass turnsPerRound s).elapse (fun _ => rfl) hlt

end

/-- No more time passes at once than up to its last turn. -/
theorem Expects.pause_le (h : l.Expects stand millis) : l.pause ≤ millis := by
  unfold Line.pause
  split
  · next hready =>
    have hmem : millis ∈ l.asleep.map (·.1) := by
      rcases h with h | h
      · rw [List.isEmpty_iff.mp hready] at h
        cases h
      · exact List.mem_map_of_mem h
    obtain ⟨first, hfirst⟩ := Option.isSome_iff_exists.mp (List.isSome_min?_of_mem hmem)
    rw [hfirst]
    exact (List.min?_eq_some_iff.mp hfirst).2 millis hmem
  · exact Nat.zero_le _

theorem Expects.elapse_pause (h : l.Expects stand millis) (hlt : l.pause < millis) :
    (l.elapse l.pause).Expects stand (millis - l.pause) := by
  refine h.elapse (fun hready => ?_) hlt
  unfold Line.pause
  rw [if_neg]
  simpa using List.ne_nil_of_mem hready

end Line

/-! ## Crowds -/

namespace Crowd

variable {crowd : Crowd} {millis spent : Nat}

/-- Among the passers is one that has its last turn after so many milliseconds. -/
def Expects (millis : Nat) (crowd : Crowd) : Prop := crowd.whole.Expects id millis

theorem expects_join (millis : Nat) (crowd : Crowd) : (crowd.join [millis]).Expects millis := by
  refine .inl (List.mem_append_left _ (List.mem_append_right _ ?_))
  exact List.mem_singleton_self _

theorem Expects.joinedBy {newcomers : List ι} (h : crowd.Expects millis) :
    (crowd.joinedBy newcomers).Expects .passer millis := by
  unfold Crowd.joinedBy Line.Expects
  rcases h with h | h
  · left
    rcases List.mem_append.mp h with h | h
    · exact List.mem_append_left _ (List.mem_append_left _ (List.mem_map_of_mem h))
    · exact List.mem_append_right _ (List.mem_map_of_mem h)
  · exact .inr (List.mem_map_of_mem h)

theorem Expects.afterWait (h : crowd.Expects millis) (hlt : spent < millis) :
    (crowd.afterWait spent).Expects (millis - spent) := by
  have hline : ∀ line : Line Passer, line.Expects id (millis - spent) →
      Crowd.Expects (millis - spent) { line } := fun line hl => hl.imp_left (List.mem_append_left _)
  unfold Crowd.afterWait
  split
  · next hzero =>
    subst hzero
    refine hline _ ?_
    exact Line.Expects.round h (fun waits l _ => l.grows_pass id waits)
      (fun l _ => List.mem_append_right _ (List.mem_singleton_self _)) hlt ()
  · refine hline _ (.inr (List.mem_filter.mpr ⟨List.mem_filterMap.mpr ?_, ?_⟩))
    · rcases h with h | h
      · refine ⟨(0, [millis]), List.mem_append_right _ (List.mem_map_of_mem h), ?_⟩
        have hpos : 0 < spent := by omega
        simp [Passer.outlast?, hpos, Nat.le_of_lt hlt]
      · refine ⟨(millis, []), List.mem_append_left _ h, ?_⟩
        simp [Passer.outlast?, Nat.le_of_lt hlt]
    · exact decide_eq_true (Nat.sub_pos_of_lt hlt)

end Crowd

/-! ## Turns of a listing -/

namespace Fetch

namespace Lineup

theorem grows_join (actor : Actor) (l : Lineup) : l.line.Grows (l.join actor).line := by
  unfold Lineup.join
  split
  · exact .refl _
  · exact l.line.grows_join _

theorem grows_seat (f : Fetch σ α) (index : Nat) (l : Lineup) :
    l.line.Grows (l.seat f index).line := by
  unfold Lineup.seat
  split
  · exact .refl _
  · exact l.line.grows_doze _ _
  · have hproducer : l.line.Grows (if f.offered.isSome && f.workers.all (·.isGone) then
        l.join .producer else l).line := by
      split
      · exact l.grows_join .producer
      · exact .refl _
    dsimp only
    split
    · exact hproducer.trans (Lineup.grows_join .supervisor _)
    · exact hproducer

/-- Nobody is sent away by the turn of another. -/
theorem grows_afterTurn (actor : Actor) (isSpent : Bool) (before after : Fetch σ α) (l : Lineup) :
    l.line.Grows (l.afterTurn actor isSpent before after).line := by
  cases actor with
  | worker index =>
    have hproducer : l.line.Grows (if before.offered.isSome && after.offered.isNone then
        l.join .producer else l).line := by
      split
      · exact l.grows_join .producer
      · exact .refl _
    simp only [Lineup.afterTurn]
    split
    · exact hproducer.trans (Line.grows_doze _ _ _)
    · exact hproducer.trans (Lineup.grows_seat after index _)
  | producer => exact ⟨List.subset_append_left _ _, fun _ h => h⟩
  | supervisor | caller =>
    simp only [Lineup.afterTurn]
    split
    · exact l.line.grows_doze _ _
    · exact .refl _

end Lineup

variable (load : String → Activity σ (Except DriveError α))

theorem grows_turn (stander : Stander Actor) (l : Line (Stander Actor))
    (x : List Nat × Fetch σ α × σ) : l.Grows (turn load stander l x).1 := by
  obtain ⟨idle, f, s⟩ := x
  cases stander with
  | passer waits => exact l.grows_pass _ _
  | member actor => exact Lineup.grows_afterTurn actor _ _ _ ⟨l, idle⟩

theorem expects_round {l : Lineup} {millis : Nat} (h : l.line.Expects .passer millis)
    (hlt : 0 < millis) (f : Fetch σ α) (s : σ) :
    (Fetch.round load l f s).1.line.Expects .passer millis :=
  Line.Expects.round h (grows_turn load)
    (fun _ _ => List.mem_append_right _ (List.mem_singleton_self _)) hlt (l.idle, f, s)

end Fetch

end SealedDrive
