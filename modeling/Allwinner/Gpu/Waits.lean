import Allwinner.Gpu.Bookkeeping

/-!
# Answers to waits

A wait that blocks leaves its request to the worker and its answer to a later
call. What `complete` and `set_tiling_gpu` answer with is what the worker finished
last, which is the answer to their question exactly as long as nobody asks another
one while an answer is due.
-/

namespace Allwinner.Gpu

open Library (System EachGiven)

variable {w : World} {sid id : Nat} {s s' : Session} {env : Env} {r : Request} {a : Outcome}

-- ---------------------------------------------------------------------------
-- Questions and answers
-- ---------------------------------------------------------------------------

/-- The request is the wait that the call asks for, and was successful. -/
def Request.Answers (r : Request) : Call → Prop
  | .complete seqno => r.operation.type = .syncobjWait ∧ r.operation.syncobjId 0 = seqno ∧ r.success = true
  | .setTilingGpu id mode =>
    r.operation.type = .wait ∧ r.operation.id = id ∧ r.operation.op = mode ∧ r.success = true
  | _ => False

def Call.Waits : Call → Prop
  | .complete _ | .setTilingGpu _ _ => True
  | _ => False

def Obs.finishedBy (sid : Nat) : Obs → Option Request
  | .finished j r => if j = sid then some r else none
  | _ => none

/-- What the worker of session `sid` finished last. -/
def lastFinished (sid : Nat) (log : List Obs) : Option Request :=
  (log.filterMap (Obs.finishedBy sid)).getLast?

/-- Where a wait returns `true`, the request that the worker finished last is this wait,
and was successful. -/
def Truthful (log : List Obs) : Obs → Prop
  | .returned sid c (.bool true) => c.Waits → ∃ r, lastFinished sid log = some r ∧ r.Answers c
  | _ => True

/-- A call that finds the answer to a wait that blocked asks for this wait again. -/
def Session.AsksAgain (s : Session) : Call → Prop
  | .complete seqno => (∃ pipe, s.syncId pipe = seqno) → s.pendingSyncobjWait = true →
      s.pending.operation.type ≠ .syncobjWait → s.completed.operation.type = .syncobjWait →
      s.completed.success = true → s.completed.operation.syncobjId 0 = seqno
  | .setTilingGpu id mode => s.pendingWait = true → s.pending.operation.type ≠ .wait →
      s.completed.operation.type = .wait → s.completed.success = true →
      s.completed.operation.id = id ∧ s.completed.operation.op = mode
  | _ => True

def AsksAgain (w : World) : Event → Prop
  | .call sid c _ => w.crashed = false → ∀ s, w.sessions sid = some s → s.AsksAgain c
  | _ => True

-- ---------------------------------------------------------------------------
-- The slot for the completed request
-- ---------------------------------------------------------------------------

/-- A successful request in the slot of `s'` is the last one of `finished`, or the one
that was there before. -/
def Reports (s : Session) (finished : List Request) (s' : Session) : Prop :=
  s'.completed.success = true →
    finished.getLast? = some s'.completed ∨ finished = [] ∧ s'.completed = s.completed

theorem Reports.refl (s : Session) : Reports s [] s := fun _ => .inr ⟨rfl, rfl⟩

theorem Reports.trans (h : Reports s f s') (h' : Reports s' f' s'') : Reports s (f ++ f') s'' := by
  intro hsuccess
  rcases h' hsuccess with hlast | ⟨rfl, hsame⟩
  · exact .inl (by simp [List.getLast?_append, hlast])
  · rw [hsame] at hsuccess ⊢
    rw [List.append_nil]
    exact h hsuccess

/-- Only the slots count. -/
theorem Reports.congr (h : Reports s f s') (hs : t.completed = s.completed)
    (hs' : t'.completed = s'.completed) : Reports t f t' := by
  unfold Reports
  rw [hs, hs']
  exact h

theorem reports_scheduleRequest (h : s.scheduleRequest w env r = .ok b) :
    Reports s b.finished b.session := by
  unfold Session.scheduleRequest at h
  split at h
  · obtain rfl := pure_ok.mp h
    exact .refl s
  · split at h
    · obtain rfl := pure_ok.mp h
      exact .refl s
    · obtain ⟨⟨t, res⟩, hd, h⟩ := bind_ok.mp h
      cases res with
      | none =>
        obtain rfl := pure_ok.mp h
        intro hsuccess
        rw [(Session.dispatch_frame hd).1] at hsuccess
        cases hsuccess
      | some r' =>
        obtain rfl := pure_ok.mp h
        exact fun _ => .inl rfl

/-- What a call makes of its session, in the sight of the slots. -/
def Slots (w : World) (sid : Nat) (s : Session) (a : Outcome) : Prop :=
  ∃ s', a.world.sessions = Function.update w.sessions sid (some s') ∧ Reports s a.finished s'

theorem slots_put (result : Result) (h : Reports s f s') : Slots w sid s ⟨w.put sid s', result, f⟩ :=
  ⟨s', rfl, h⟩

theorem slots_same (hs : w.sessions sid = some s) (result : Result) : Slots w sid s ⟨w, result, []⟩ :=
  ⟨s, by rw [← hs, Function.update_eq_self], .refl s⟩

theorem execute_slots (h : execute w sid s env id = .ok a) : Slots w sid s a := by
  unfold execute at h
  obtain ⟨b, hb, h⟩ := bind_ok.mp h
  split at h <;> obtain rfl := pure_ok.mp h <;> exact slots_put _ (reports_scheduleRequest hb)

theorem complete_slots (hs : w.sessions sid = some s) (h : complete w sid s env seqno = .ok a) :
    Slots w sid s a := by
  unfold complete at h
  split at h
  · obtain rfl := pure_ok.mp h
    exact slots_same hs _
  · split at h
    · obtain rfl := pure_ok.mp h
      exact slots_same hs _
    · split at h
      · obtain rfl := pure_ok.mp h
        exact slots_put _ ((Reports.refl s).congr rfl rfl)
      · obtain ⟨b, hb, h⟩ := bind_ok.mp h
        have hreports := reports_scheduleRequest hb
        split at h <;> obtain rfl := pure_ok.mp h <;> exact slots_put _ (hreports.congr rfl rfl)

theorem setTilingGpu_slots (hs : w.sessions sid = some s) (h : setTilingGpu w sid s env id mode = .ok a) :
    Slots w sid s a := by
  unfold setTilingGpu at h
  split at h
  · obtain rfl := pure_ok.mp h
    exact slots_same hs _
  · split at h
    · obtain rfl := pure_ok.mp h
      exact slots_put _ ((Reports.refl s).congr rfl rfl)
    · obtain ⟨b, hb, h⟩ := bind_ok.mp h
      have hreports := reports_scheduleRequest hb
      split at h <;> obtain rfl := pure_ok.mp h <;> exact slots_put _ (hreports.congr rfl rfl)

theorem completed_book (w : World) (sid : Nat) (s : Session) (env : Env) (id : VramId) (b : BufferObject) :
    (book w sid s env id b).2.1.completed = s.completed ∧
      (book w sid s env id b).1.sessions = w.sessions := by
  unfold book
  split
  · exact ⟨rfl, rfl⟩
  · dsimp only
    split <;> exact ⟨rfl, rfl⟩

theorem mapGpu_slots (hs : w.sessions sid = some s) (h : mapGpu w sid s env id size va = .ok a) :
    Slots w sid s a := by
  unfold mapGpu at h
  split at h
  · obtain rfl := pure_ok.mp h
    exact slots_same hs _
  · split at h
    · obtain rfl := pure_ok.mp h
      exact slots_same hs _
    · obtain ⟨b, hb, h⟩ := bind_ok.mp h
      have hreports := reports_scheduleRequest hb
      split at h
      · obtain rfl := pure_ok.mp h
        exact slots_put _ hreports
      · -- the buffer is booked if there is one, which leaves slots and sessions alone
        have hrest : ∀ (w' : World) (t : Session) (ret : Bool), t.completed = b.session.completed →
            w'.sessions = w.sessions → (do
              if ret then return ⟨w'.put sid t, .bool true, b.finished⟩
              let c ← t.scheduleRequest w' env (freeRequest id 0)
              return ⟨w'.put sid c.session, .bool false, b.finished ++ c.finished⟩ :
                Except Fault Outcome) = .ok a → Slots w sid s a := by
          intro w' t ret ht hsessions h
          split at h
          · obtain rfl := pure_ok.mp h
            exact ⟨t, by simp [World.put, hsessions], hreports.congr rfl ht⟩
          · obtain ⟨c, hc, h⟩ := bind_ok.mp h
            obtain rfl := pure_ok.mp h
            refine ⟨c.session, by simp [World.put, hsessions], hreports.trans ?_⟩
            exact (reports_scheduleRequest hc).congr ht.symm rfl
        cases hlookup : b.session.buffers.lookup id with
        | none =>
          rw [hlookup] at h
          exact hrest w b.session false rfl rfl h
        | some bo =>
          rw [hlookup] at h
          obtain ⟨hcompleted, hsessions⟩ := completed_book w sid b.session env id bo
          exact hrest _ _ _ hcompleted hsessions h

theorem unmapGpu_slots (hs : w.sessions sid = some s) (h : unmapGpu w sid s env id = .ok a) :
    Slots w sid s a := by
  unfold unmapGpu at h
  split at h
  · obtain rfl := pure_ok.mp h
    exact slots_same hs _
  · split at h
    · obtain rfl := pure_ok.mp h
      exact slots_same hs _
    · obtain ⟨v, -, h⟩ := bind_ok.mp h
      split at h
      · obtain rfl := pure_ok.mp h
        exact slots_same hs _
      · obtain ⟨b, hb, h⟩ := bind_ok.mp h
        obtain rfl := pure_ok.mp h
        exact ⟨b.session, rfl, (reports_scheduleRequest hb).congr rfl rfl⟩

theorem unmapCpu_slots (hs : w.sessions sid = some s) (h : unmapCpu w sid s env id = .ok a) :
    Slots w sid s a := by
  unfold unmapCpu at h
  split at h
  · obtain rfl := pure_ok.mp h
    exact slots_same hs _
  · split at h
    · obtain ⟨b, hb, h⟩ := bind_ok.mp h
      obtain rfl := pure_ok.mp h
      exact slots_put _ ((reports_scheduleRequest hb).congr rfl rfl)
    · obtain rfl := pure_ok.mp h
      exact slots_put _ ((Reports.refl s).congr rfl rfl)

theorem exportVram_slots (hs : w.sessions sid = some s) (h : exportVram w sid s env id = .ok a) :
    Slots w sid s a := by
  unfold exportVram at h
  split at h
  · obtain rfl := pure_ok.mp h
    exact slots_same hs _
  · rename_i vl _
    obtain ⟨⟨t, name, f⟩, hb, h⟩ := bind_ok.mp h
    have hreports : Reports s f t := by
      unfold lookupExport at hb
      split at hb
      · obtain ⟨rfl, -, rfl⟩ : s = t ∧ vl.exportName = name ∧ [] = f := by simpa using pure_ok.mp hb
        exact .refl s
      · obtain ⟨b, hb', hb⟩ := bind_ok.mp hb
        split at hb
        · obtain ⟨rfl, -, rfl⟩ : b.session = t ∧ none = name ∧ b.finished = f := by
            simpa using pure_ok.mp hb
          exact reports_scheduleRequest hb'
        · obtain ⟨ht, hrest⟩ := Prod.mk.inj (pure_ok.mp hb)
          obtain ⟨-, rfl⟩ := Prod.mk.inj hrest
          exact (reports_scheduleRequest hb').congr rfl (by rw [← ht])
    dsimp only at h
    split at h
    · obtain rfl := pure_ok.mp h
      exact slots_put _ hreports
    · obtain ⟨v, -, h⟩ := bind_ok.mp h
      obtain rfl := pure_ok.mp h
      cases vl.vramCap <;> exact ⟨t, rfl, hreports⟩

theorem openImport_slots {vl : VramLocal} (h : openImport w sid s env cap id vl = .ok a) :
    Slots w sid s a := by
  unfold openImport at h
  split at h
  · obtain rfl := pure_ok.mp h
    exact slots_put _ (.refl s)
  · obtain ⟨v, -, h⟩ := bind_ok.mp h
    obtain ⟨b, hb, h⟩ := bind_ok.mp h
    have hreports := reports_scheduleRequest hb
    split at h <;> obtain rfl := pure_ok.mp h <;> exact slots_put _ (hreports.congr rfl rfl)

theorem importVram_slots (hs : w.sessions sid = some s) (h : importVram w sid s env cap id = .ok a) :
    Slots w sid s a := by
  unfold importVram at h
  split at h
  · exact openImport_slots h
  · split at h
    · obtain rfl := Except.ok.inj h
      exact slots_same hs _
    · obtain ⟨s', hsessions, hreports⟩ := openImport_slots h
      exact ⟨s', hsessions, hreports.congr rfl rfl⟩

theorem perform_slots (hs : w.sessions sid = some s) (h : perform w sid s env c = .ok a) :
    Slots w sid s a := by
  cases c with
  | execute id => exact execute_slots h
  | complete seqno => exact complete_slots hs h
  | setTilingGpu id mode => exact setTilingGpu_slots hs h
  | mapGpu id size va => exact mapGpu_slots hs h
  | unmapGpu id =>
    cases hu : unmapGpu w sid s env id with
    | error f => simp [perform, hu, Except.map] at h
    | ok b =>
      obtain rfl : { b with result := .done } = a := by simpa [perform, hu, Except.map] using h
      obtain ⟨s', hsessions, hreports⟩ := unmapGpu_slots hs hu
      exact ⟨s', hsessions, hreports⟩
  | unmapCpu id => exact unmapCpu_slots hs h
  | exportVram id => exact exportVram_slots hs h
  | importVram cap id => exact importVram_slots hs h

-- ---------------------------------------------------------------------------
-- The request finished last
-- ---------------------------------------------------------------------------

variable {log : List Obs}

theorem lastFinished_finished (sid : Nat) (log : List Obs) (f : List Request) :
    lastFinished sid (log ++ f.map (.finished sid)) = f.getLast?.or (lastFinished sid log) := by
  have hmap : (f.map (Obs.finished sid)).filterMap (Obs.finishedBy sid) = f := by
    rw [List.filterMap_map]
    have hsome : Obs.finishedBy sid ∘ Obs.finished sid = some := by
      funext r
      simp [Obs.finishedBy]
    rw [hsome, List.filterMap_some]
  rw [lastFinished, List.filterMap_append, List.getLast?_append, hmap]
  rfl

theorem lastFinished_other (h : ∀ o ∈ obs, o.finishedBy sid = none) :
    lastFinished sid (log ++ obs) = lastFinished sid log := by
  have hnone : obs.filterMap (Obs.finishedBy sid) = [] := List.filterMap_eq_nil_iff.mpr h
  rw [lastFinished, List.filterMap_append, hnone, List.append_nil, lastFinished]

/-- The log tells what a successful request in a slot is. -/
def Reported (log : List Obs) (w : World) : Prop :=
  ∀ sid s, w.sessions sid = some s → s.completed.success = true →
    lastFinished sid log = some s.completed

theorem Reported.call (h : Reported log w) (hs : w.sessions sid = some s) (hslots : Slots w sid s a) :
    Reported (log ++ (a.finished.map (.finished sid) ++ [.returned sid c a.result])) a.world := by
  obtain ⟨s', hsessions, hreports⟩ := hslots
  intro j t ht hsuccess
  rw [← List.append_assoc, lastFinished_other (by simp [Obs.finishedBy])]
  by_cases hj : j = sid
  · subst hj
    obtain rfl : s' = t := by simpa [hsessions] using ht
    rw [lastFinished_finished]
    rcases hreports hsuccess with hlast | ⟨hnil, hsame⟩
    · rw [hlast]
      rfl
    · rw [hsame] at hsuccess ⊢
      rw [hnil]
      exact h j s hs hsuccess
  · rw [lastFinished_other (by simp [Obs.finishedBy, Ne.symm hj])]
    exact h j t (by simpa [hsessions, hj] using ht) hsuccess

/-- What the worker of session `sid` finishes apart from calls. -/
theorem Reported.finished (h : Reported log w) (hother : ∀ j, j ≠ sid → w'.sessions j = w.sessions j)
    (hself : ∀ t, w'.sessions sid = some t → t.completed.success = true →
      f.getLast? = some t.completed ∨ f = [] ∧ lastFinished sid log = some t.completed) :
    Reported (log ++ f.map (.finished sid)) w' := by
  intro j t ht hsuccess
  by_cases hj : j = sid
  · subst hj
    rw [lastFinished_finished]
    rcases hself t ht hsuccess with hlast | ⟨rfl, hlast⟩
    · rw [hlast]
      rfl
    · exact hlast
  · rw [lastFinished_other (by simp [Obs.finishedBy, Ne.symm hj])]
    exact h j t (hother j hj ▸ ht) hsuccess

-- ---------------------------------------------------------------------------
-- What the calls answer
-- ---------------------------------------------------------------------------

/-- A wait that is answered at once is the request finished last. -/
theorem scheduled_wait (htype : r.operation.type = .syncobjWait ∨ r.operation.type = .wait)
    (h : s.scheduleRequest w env r = .ok b) (hb : b.result = some r') :
    b.finished = [r'] ∧ r' = r.withSuccess true := by
  have hdispatch : ∀ t, (t : Session).dispatch w env r = .ok (t, none) ∨
      ∃ success, t.dispatch w env r = .ok (t, some (r.withSuccess success)) := by
    intro t
    have hwaited : ∀ x : Wait, (r.withSuccess false).waited x = none ∨
        ∃ success, (r.withSuccess false).waited x = some (r.withSuccess success) := by
      rintro (_ | err)
      · exact .inl rfl
      · exact .inr ⟨_, rfl⟩
    unfold Session.dispatch Session.dispatchOther
    rcases htype with htype | htype
    all_goals
      have htype' : (r.withSuccess false).operation.type = _ := htype
      simp only [htype']
    · rcases hwaited (env.syncobjWait ((r.withSuccess false).operation.syncobjId 0)) with he | ⟨success, he⟩
      · exact .inl (by rw [he])
      · exact .inr ⟨success, by rw [he]⟩
    · split
      · exact .inr ⟨false, rfl⟩
      · rename_i bo _
        rcases hwaited (env.gemWait bo.handle (r.withSuccess false).operation.op) with he | ⟨success, he⟩
        · exact .inl (by rw [he])
        · exact .inr ⟨success, by rw [he]⟩
  unfold Session.scheduleRequest at h
  split at h
  · obtain rfl := pure_ok.mp h
    cases hb
  · split at h
    · obtain rfl := pure_ok.mp h
      cases hb
    · rcases hdispatch (s.start r) with hd | ⟨success, hd⟩
      · rw [hd] at h
        obtain rfl := Except.ok.inj h
        cases hb
      · rw [hd] at h
        obtain rfl := Except.ok.inj h
        dsimp only at hb
        split at hb
        · rename_i hsuccess
          obtain rfl := Option.some.inj hb
          have hsuccess : success = true := hsuccess
          exact ⟨rfl, by rw [hsuccess]⟩
        · cases hb

theorem complete_truthful (hlast : s.completed.success = true → lastFinished sid log = some s.completed)
    (h : complete w sid s env seqno = .ok a) :
    Truthful (log ++ a.finished.map (.finished sid)) (.returned sid (.complete seqno) a.result) ↔
      s.AsksAgain (.complete seqno) := by
  unfold complete at h
  split at h
  · rename_i hunknown
    obtain rfl := pure_ok.mp h
    exact iff_of_true trivial fun ⟨pipe, hpipe⟩ => absurd hpipe (hunknown pipe)
  · rename_i hknown
    have hknown : ∃ pipe, s.syncId pipe = seqno := by simpa only [not_forall, ne_eq, not_not] using hknown
    split at h
    · rename_i hpending
      obtain rfl := pure_ok.mp h
      have hpending : s.pendingSyncobjWait = true ∧ s.pending.operation.type = .syncobjWait := by
        simpa using hpending
      exact iff_of_true trivial fun _ _ hno => absurd hpending.2 hno
    · rename_i hpending
      split at h
      · rename_i hcompleted
        obtain rfl := pure_ok.mp h
        have hcompleted : s.pendingSyncobjWait = true ∧ s.completed.operation.type = .syncobjWait := by
          simpa using hcompleted
        have hpending : s.pending.operation.type ≠ .syncobjWait := by simpa [hcompleted.1] using hpending
        cases hsuccess : s.completed.success with
        | false => exact iff_of_true trivial fun _ _ _ _ hno => absurd (hsuccess.symm.trans hno) (by decide)
        | true =>
          simp only [Truthful, Call.Waits, List.map_nil, List.append_nil, hlast hsuccess, Request.Answers,
            Session.AsksAgain, Option.some.injEq, exists_eq_left', hcompleted, hknown, hpending, hsuccess,
            true_and, and_true, true_imp_iff, ne_eq, not_false_eq_true]
      · rename_i hcompleted
        have hasks : s.AsksAgain (.complete seqno) := by
          intro _ hflag _ htype
          exact absurd (show (s.pendingSyncobjWait && _) = true by simp [hflag, htype]) hcompleted
        obtain ⟨b, hb, h⟩ := bind_ok.mp h
        split at h
        · obtain rfl := pure_ok.mp h
          exact iff_of_true trivial hasks
        · rename_i r' hr'
          obtain ⟨hfinished, rfl⟩ := scheduled_wait (.inl rfl) hb hr'
          obtain rfl := pure_ok.mp h
          refine iff_of_true (fun _ => ⟨(completeRequest seqno).withSuccess true, ?_, rfl, ?_, rfl⟩) hasks
          · rw [lastFinished_finished, hfinished]
            rfl
          · simp [completeRequest, Request.withSuccess]

theorem setTilingGpu_truthful (hlast : s.completed.success = true → lastFinished sid log = some s.completed)
    (h : setTilingGpu w sid s env id mode = .ok a) :
    Truthful (log ++ a.finished.map (.finished sid)) (.returned sid (.setTilingGpu id mode) a.result) ↔
      s.AsksAgain (.setTilingGpu id mode) := by
  unfold setTilingGpu at h
  split at h
  · rename_i hpending
    obtain rfl := pure_ok.mp h
    have hpending : s.pendingWait = true ∧ s.pending.operation.type = .wait := by simpa using hpending
    exact iff_of_true trivial fun _ hno => absurd hpending.2 hno
  · rename_i hpending
    split at h
    · rename_i hcompleted
      obtain rfl := pure_ok.mp h
      have hcompleted : s.pendingWait = true ∧ s.completed.operation.type = .wait := by
        simpa using hcompleted
      have hpending : s.pending.operation.type ≠ .wait := by simpa [hcompleted.1] using hpending
      cases hsuccess : s.completed.success with
      | false => exact iff_of_true trivial fun _ _ _ hno => absurd (hsuccess.symm.trans hno) (by decide)
      | true =>
        simp only [Truthful, Call.Waits, List.map_nil, List.append_nil, hlast hsuccess, Request.Answers,
          Session.AsksAgain, Option.some.injEq, exists_eq_left', hcompleted, hpending, hsuccess, true_and,
          and_true, true_imp_iff, ne_eq, not_false_eq_true]
    · rename_i hcompleted
      have hasks : s.AsksAgain (.setTilingGpu id mode) := by
        intro hflag _ htype
        exact absurd (show (s.pendingWait && _) = true by simp [hflag, htype]) hcompleted
      obtain ⟨b, hb, h⟩ := bind_ok.mp h
      split at h
      · obtain rfl := pure_ok.mp h
        exact iff_of_true trivial hasks
      · rename_i r' hr'
        obtain ⟨hfinished, rfl⟩ := scheduled_wait (.inr rfl) hb hr'
        obtain rfl := pure_ok.mp h
        refine iff_of_true (fun _ => ⟨(tilingRequest id mode).withSuccess true, ?_, rfl, rfl, rfl, rfl⟩) hasks
        rw [lastFinished_finished, hfinished]
        rfl

theorem perform_truthful (hlast : s.completed.success = true → lastFinished sid log = some s.completed)
    (h : perform w sid s env c = .ok a) :
    Truthful (log ++ a.finished.map (.finished sid)) (.returned sid c a.result) ↔ s.AsksAgain c := by
  cases c with
  | complete seqno => exact complete_truthful hlast h
  | setTilingGpu id mode => exact setTilingGpu_truthful hlast h
  | _ =>
    refine iff_of_true ?_ trivial
    unfold Truthful
    split
    · rename_i he
      obtain ⟨-, rfl, -⟩ := Obs.returned.inj he
      exact False.elim
    · trivial

-- ---------------------------------------------------------------------------
-- Runs
-- ---------------------------------------------------------------------------

theorem truthful_finished (log : List Obs) (sid : Nat) (f : List Request) :
    EachGiven (fun pre => Truthful (log ++ pre)) (f.map (.finished sid)) := by
  intro pre o post he
  have ho : o ∈ f.map (Obs.finished sid) := he ▸ by simp
  obtain ⟨r, -, rfl⟩ := List.mem_map.mp ho
  trivial

theorem truthful_call (log : List Obs) (sid : Nat) (f : List Request) (o : Obs) :
    EachGiven (fun pre => Truthful (log ++ pre)) (f.map (.finished sid) ++ [o]) ↔
      Truthful (log ++ f.map (.finished sid)) o := by
  rw [Library.eachGiven_append, Library.eachGiven_cons]
  simp [truthful_finished, Library.eachGiven_nil]

theorem truthful_crash (log : List Obs) (f : Fault) :
    EachGiven (fun pre => Truthful (log ++ pre)) [.fault f] :=
  Library.eachGiven_cons.mpr ⟨trivial, Library.eachGiven_nil⟩

theorem complete_no_fault : complete w sid s env seqno ≠ .error f := by
  intro h
  unfold complete at h
  rw [Session.scheduleRequest_eq (r := completeRequest seqno) (by rintro ⟨⟩)] at h
  split at h
  · cases h
  · split at h
    · cases h
    · split at h
      · cases h
      · dsimp only [bind, Except.bind] at h
        split at h <;> cases h

theorem setTilingGpu_no_fault : setTilingGpu w sid s env id mode ≠ .error f := by
  intro h
  unfold setTilingGpu at h
  rw [Session.scheduleRequest_eq (r := tilingRequest id mode) (by rintro ⟨⟩)] at h
  split at h
  · cases h
  · split at h
    · cases h
    · dsimp only [bind, Except.bind] at h
      split at h <;> cases h

theorem asksAgain_of_fault (h : perform w sid s env c = .error f) : s.AsksAgain c := by
  cases c with
  | complete seqno => exact absurd h complete_no_fault
  | setTilingGpu id mode => exact absurd h setTilingGpu_no_fault
  | _ => trivial

/-- A new session reports what its constructor had finished. -/
theorem construct_reports (h : construct w envs = .ok (s, finished)) : Reports {} finished s := by
  unfold construct at h
  obtain ⟨c, hc, h⟩ := bind_ok.mp h
  obtain ⟨a, ha, h⟩ := bind_ok.mp h
  obtain ⟨b, hb, h⟩ := bind_ok.mp h
  obtain ⟨rfl, rfl⟩ := Prod.mk.inj (pure_ok.mp h)
  have ha' : Reports c.session a.finished a.session := (reports_scheduleRequest ha).congr rfl rfl
  exact (((reports_scheduleRequest hc).trans ha').trans (reports_scheduleRequest hb)).congr rfl rfl

theorem wake_reports (s : Session) (err : Int) : Reports s (s.wake err).2 (s.wake err).1 := by
  unfold Session.wake
  split
  · exact fun _ => .inl rfl
  · exact .refl s

theorem obs_crashed (hcrashed : w.crashed = true) (e : Event) : gpu.obs w e = [] := by
  have hstep : w.step e = (w, []) := if_pos hcrashed
  exact congrArg Prod.snd hstep

theorem reported_next (hw : Reported log w) (e : Event) :
    Reported (log ++ gpu.obs w e) (gpu.next w e) := by
  by_cases hcrashed : w.crashed = true
  · rw [step_crashed hcrashed, obs_crashed hcrashed, List.append_nil]
    exact hw
  · have hnext : gpu.next w e = (w.step e).1 := rfl
    have hobs : gpu.obs w e = (w.step e).2 := rfl
    have hcrash : ∀ f, Reported (log ++ (w.crash f).2) (w.crash f).1 := by
      intro f sid s hs hsuccess
      rw [lastFinished_other (by simp [World.crash, Obs.finishedBy])]
      exact hw sid s hs hsuccess
    have hsame : Reported (log ++ []) w := by simpa using hw
    rw [hnext, hobs]
    unfold World.step
    rw [if_neg hcrashed]
    cases e with
    | openSession envs =>
      dsimp only
      split
      · exact hcrash _
      · rename_i t finished h
        refine hw.finished (fun j hj => Function.update_of_ne hj _ _) fun u hu hsuccess => ?_
        obtain rfl : t = u := by simpa [World.put] using hu
        rcases construct_reports h hsuccess with hlast | ⟨-, hfresh⟩
        · exact .inl hlast
        · rw [hfresh] at hsuccess
          cases hsuccess
    | closeSession j env =>
      dsimp only
      split
      · exact hsame
      · split
        · exact hcrash _
        · rename_i w' h
          obtain ⟨hframe, hnone⟩ := destruct_frame h
          refine hw.finished (f := []) hframe.sessions fun u hu => ?_
          rw [hnone] at hu
          cases hu
    | call j c env =>
      dsimp only
      split
      · exact hsame
      · rename_i s hs
        split
        · exact hcrash _
        · rename_i a h
          exact hw.call hs (perform_slots hs h)
    | wake j err =>
      dsimp only
      split
      · exact hsame
      · rename_i s hs
        refine hw.finished (fun i hi => Function.update_of_ne hi _ _) fun u hu hsuccess => ?_
        obtain rfl : (s.wake err).1 = u := by simpa [World.put] using hu
        rcases wake_reports s err hsuccess with hlast | ⟨hnil, hkept⟩
        · exact .inl hlast
        · rw [hkept] at hsuccess ⊢
          exact .inr ⟨hnil, hw j s hs hsuccess⟩

/-- The answers in a step are true exactly if the call asks again. -/
theorem truthful_step (hw : Reported log w) (e : Event) :
    EachGiven (fun pre => Truthful (log ++ pre)) (gpu.obs w e) ↔ AsksAgain w e := by
  by_cases hcrashed : w.crashed = true
  · rw [obs_crashed hcrashed]
    refine iff_of_true Library.eachGiven_nil ?_
    cases e with
    | call j c env => exact fun hno => absurd (hcrashed.symm.trans hno) (by decide)
    | _ => trivial
  · have hcrashed' : w.crashed = false := by simpa using hcrashed
    have hobs : gpu.obs w e = (w.step e).2 := rfl
    rw [hobs]
    unfold World.step
    rw [if_neg hcrashed]
    cases e with
    | openSession envs =>
      refine iff_of_true ?_ trivial
      dsimp only
      split
      · exact truthful_crash log _
      · exact truthful_finished log _ _
    | closeSession j env =>
      refine iff_of_true ?_ trivial
      dsimp only
      split
      · exact Library.eachGiven_nil
      · split
        · exact truthful_crash log _
        · exact Library.eachGiven_nil
    | call j c env =>
      dsimp only
      split
      · rename_i hnone
        refine iff_of_true Library.eachGiven_nil fun _ s hs => ?_
        rw [hnone] at hs
        cases hs
      · rename_i s hs
        have hasks : AsksAgain w (.call j c env) ↔ s.AsksAgain c := by
          refine ⟨fun h => h hcrashed' s hs, fun h _ t ht => ?_⟩
          obtain rfl : s = t := Option.some.inj (hs.symm.trans ht)
          exact h
        rw [hasks]
        split
        · rename_i f h
          exact iff_of_true (truthful_crash log f) (asksAgain_of_fault h)
        · rename_i a h
          exact (truthful_call log j a.finished _).trans (perform_truthful (hw j s hs) h)
    | wake j err =>
      refine iff_of_true ?_ trivial
      dsimp only
      split
      · exact Library.eachGiven_nil
      · exact truthful_finished log _ _

/-- All waits that return `true` tell the truth exactly if the calls that find the answer
to a wait that blocked ask for this wait again. -/
theorem truthful_iff (es : List Event) : EachGiven Truthful (gpu.log {} es) ↔ gpu.Along AsksAgain {} es := by
  have hinit : Reported [] {} := fun _ _ h => by cases h
  exact System.eachGiven_iff_along (fun _ _ e hw _ => reported_next hw e)
    (fun _ _ e hw => truthful_step hw e) hinit

/-- The session has the sync objects 5 and 6, and waits for 5 only. -/
def askForAnother : List Event :=
  [.openSession fun i => { granting with syncobjCreate := some (if i.val = 1 then 5 else 6) },
    .call 0 (.complete 5) granting, .wake 0 0, .call 0 (.complete 6) granting]

/-- The wait for 6 is answered with the end of the wait for 5. -/
theorem answer_to_another : ¬ EachGiven Truthful (gpu.log {} askForAnother) ∧
    .returned 0 (.complete 6) (.bool true) ∈ gpu.log {} askForAnother ∧
    ∀ r, .finished 0 r ∈ gpu.log {} askForAnother → ¬ r.Answers (.complete 6) := by
  let created (handle : Nat) : Request :=
    { operation := { type := .syncobjCreate, syncobjId := Function.update (fun _ => 0) 0 handle }, success := true }
  have hlog : gpu.log {} askForAnother =
      [.finished 0 { operation := { type := .ctxCreate, ctxId := 1 }, success := true },
        .finished 0 (created 5), .finished 0 (created 6),
        .returned 0 (.complete 5) (.bool false), .finished 0 ((completeRequest 5).withSuccess true)] ++
      [.returned 0 (.complete 6) (.bool true)] := rfl
  rw [hlog]
  refine ⟨fun h => ?_, by simp, ?_⟩
  · obtain ⟨r, hr, -, hanother, -⟩ := h _ _ [] rfl trivial
    obtain rfl := Option.some.inj hr
    exact absurd hanother (by decide)
  · intro r hr hanswers
    simp only [List.cons_append, List.nil_append, List.mem_cons, Obs.finished.injEq, true_and, reduceCtorEq,
      List.not_mem_nil, or_false, false_or] at hr
    rcases hr with rfl | rfl | rfl | rfl
    · cases hanswers.1
    · cases hanswers.1
    · cases hanswers.1
    · exact absurd hanswers.2.1 (by decide)

end Allwinner.Gpu
