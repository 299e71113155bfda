import Allwinner.Modem.QcfgExchange
import Allwinner.Modem.Reboot

/-!
# Earned reboots

A reboot makes assigned settings effective. Unless the user's ring command itself
assigns or reboots, each confirmed reboot has an acknowledged assignment in front of
it that no other reboot used up: an entry is modified by nothing else, and a confirmed
reboot leaves none modified.
-/

namespace Allwinner.Modem

open Library (System Earned Open)

-- ---------------------------------------------------------------------------
-- What the scanner takes for a name
-- ---------------------------------------------------------------------------

/-- `inside` holds of the texts that no quotation mark ends. It holds of what is in a
quoted string and in a number, and such a text in quotation marks has no token but a string. -/
structure Quotes (scan : Scanner) (inside : Text → Prop) : Prop where
  nil : inside []
  start : ∀ {t u}, t <+: u → inside u → inside t
  string : ∀ s, ∀ tok ∈ scan s, tok.type = .string →
    ∃ body, inside body ∧ tok.text = '"' :: (body ++ ['"'])
  number : ∀ s, ∀ tok ∈ scan s, tok.type = .number → inside tok.text
  only : ∀ body, inside body → ∀ tok ∈ scan ('"' :: (body ++ ['"'])), tok.type = .string

namespace Quotes

open commaSeparatedElement

variable {scan : Scanner} {inside : Text → Prop}

theorem go_inside (h : Quotes scan inside) {s : Text} {ts : List Token} (hts : ts ⊆ scan s)
    (idx commas : Nat) : inside (go (N := N) idx commas ts).chars := by
  induction ts generalizing commas with
  | nil => exact h.nil
  | cons t ts ih =>
    have ht : t ∈ scan s := hts (by simp)
    have hrest := fun commas => ih (fun u hu => hts (by simp [hu])) commas
    unfold go
    split_ifs with hsingle hcomma hidx hnumber hstring
    · exact hrest _
    · exact hrest _
    · exact hrest _
    · exact h.start (Str.ofText_prefix _ _) (h.number s t ht hnumber)
    · obtain ⟨body, hbody, htext⟩ := h.string s t ht hstring
      refine h.start (Str.ofText_prefix _ _) ?_
      simpa [htext] using hbody
    · exact hrest _

/-- No field is a text that a quotation mark ends. -/
theorem field_inside (h : Quotes scan inside) (idx : Nat) (s : Str N) :
    inside ((commaSeparatedElement scan idx s).cast M).chars :=
  h.start (Str.ofText_prefix _ _) (h.go_inside (fun _ ht => ht) _ _)

theorem only_strings {ts : List Token} (hts : ∀ tok ∈ ts, tok.type = .string) :
    go (N := N) 1 0 ts = .empty := by
  induction ts with
  | nil => rfl
  | cons t ts ih =>
    simp only [go, hts t (by simp)]
    exact ih fun u hu => hts u (by simp [hu])

/-- A name in quotation marks is followed by no second field. -/
theorem no_second_field (h : Quotes scan inside) {s : Str N} (hbody : inside body)
    (hs : s.chars = '"' :: (body ++ ['"'])) : commaSeparatedElement scan 1 s = .empty :=
  only_strings (hs ▸ h.only body hbody)

end Quotes

theorem responseScanner_tokens {tok : Token} (h : tok ∈ responseScanner.go fuel t) :
    (tok.type = .string → ∃ body, '"' ∉ body ∧ tok.text = '"' :: (body ++ ['"'])) ∧
      (tok.type = .number → '"' ∉ tok.text) := by
  induction fuel generalizing t with
  | zero => cases h
  | succ fuel ih =>
    cases t with
    | nil => cases h
    | cons c cs =>
      simp only [responseScanner.go] at h
      split_ifs at h with hquote hend hdigit hident hblank
      · cases h
      · rcases List.mem_cons.mp h with rfl | h
        · refine ⟨fun _ => ⟨_, ?_, by rw [hquote]⟩, by simp⟩
          intro hm
          simpa using List.mem_takeWhile_imp hm
        · exact ih h
      · rcases List.mem_cons.mp h with rfl | h
        · refine ⟨by simp, fun _ hm => ?_⟩
          rcases List.mem_cons.mp hm with rfl | hm
          · exact hquote rfl
          · exact absurd (List.mem_takeWhile_imp hm) (by decide)
        · exact ih h
      all_goals
        rcases List.mem_cons.mp h with rfl | h
        · exact ⟨by simp, by simp⟩
        · exact ih h

theorem responseScanner_quotes : Quotes responseScanner ('"' ∉ ·) where
  nil := List.not_mem_nil
  start ht hu hm := hu (ht.subset hm)
  string _ _ htok := (responseScanner_tokens htok).1
  number _ _ htok := (responseScanner_tokens htok).2
  only body hbody tok htok := by
    rw [responseScanner_string hbody []] at htok
    have : tok = ⟨.string, '"' :: (body ++ ['"'])⟩ := by simpa [responseScanner, responseScanner.go] using htok
    rw [this]

-- ---------------------------------------------------------------------------
-- The registry
-- ---------------------------------------------------------------------------

namespace Qcfg

variable {q : Qcfg} {n : Name} {fn : Entry → State} {inside : Text → Prop}

/-- The entries without their states. -/
def settings (q : Qcfg) : List (Name × Value) := q.map fun e => (e.name, e.value)

/-- An entry whose name no response spells stays unknown. -/
def Unspelled (inside : Text → Prop) (q : Qcfg) : Prop :=
  ∀ e ∈ q, ¬ inside e.name.chars → e.state = .unknown

theorem settings_withEntry : (q.withEntry n fn).settings = q.settings := by
  induction q with
  | nil => rfl
  | cons e es ih =>
    unfold withEntry
    split
    · rfl
    · simpa [settings] using ih

theorem settings_invalidate : q.invalidateAfterReboot.settings = q.settings := by
  simp [settings, invalidateAfterReboot]

theorem mem_withEntry (h : e ∈ q.withEntry n fn) :
    e ∈ q ∨ ∃ e' ∈ q, e'.name = n ∧ e = { e' with state := fn e' } := by
  induction q with
  | nil => cases h
  | cons x xs ih =>
    unfold withEntry at h
    split at h
    · rename_i hx
      rcases List.mem_cons.mp h with rfl | h
      · exact .inr ⟨x, by simp, hx, rfl⟩
      · exact .inl (by simp [h])
    · rcases List.mem_cons.mp h with rfl | h
      · exact .inl (by simp)
      · rcases ih h with h | ⟨e', he', hn, he⟩
        · exact .inl (by simp [h])
        · exact .inr ⟨e', by simp [he'], hn, he⟩

theorem Unspelled.withEntry (h : Unspelled inside q) (hn : inside n.chars) :
    Unspelled inside (q.withEntry n fn) := by
  intro e he hname
  rcases mem_withEntry he with he | ⟨e', -, rfl, rfl⟩
  · exact h e he hname
  · exact absurd hn hname

theorem unspelled_invalidate : Unspelled inside q.invalidateAfterReboot := by
  intro e he _
  obtain ⟨e', -, rfl⟩ := List.mem_map.mp he
  rfl

theorem hasEntry_eq (q : Qcfg) (n : Name) : q.hasEntry n = q.settings.any (·.1 = n) := by
  simp [hasEntry, settings, List.any_map, Function.comp_def]

theorem mem_settings (h : e ∈ q) : (e.name, e.value) ∈ q.settings := List.mem_map_of_mem h

theorem rebootNeeded_iff : q.rebootNeeded = true ↔
    (∀ e ∈ q, e.state ≠ .unknown ∧ e.state ≠ .mismatch) ∧ ∃ e ∈ q, e.state = .modified := by
  unfold rebootNeeded
  simp only [Bool.or_eq_true, List.any_eq_true, decide_eq_true_eq]
  split
  · rename_i h
    refine iff_of_false Bool.false_ne_true ?_
    rintro ⟨hno, -⟩
    rcases h with ⟨e, he, hs⟩ | ⟨e, he, hs⟩
    · exact (hno e he).1 hs
    · exact (hno e he).2 hs
  · rename_i h
    simp only [not_or, not_exists, not_and] at h
    simp only [List.any_eq_true, decide_eq_true_eq]
    exact (and_iff_right fun e he => ⟨h.1 e he, h.2 e he⟩).symm

end Qcfg

-- ---------------------------------------------------------------------------
-- What a line makes of the registry
-- ---------------------------------------------------------------------------

namespace Status

variable {scan : Scanner} {inside : Text → Prop} {q q' : Qcfg} {s : Status} {l : Text}

theorem queriedQcfg_cases (hscan : Quotes scan inside) (h : queriedQcfg scan q l = some q') :
    ∃ n : Qcfg.Name, inside n.chars ∧ ∃ v, q' = q.withEntry n fun e =>
      if e.value = v then .confirmed else .mismatch := by
  unfold queriedQcfg at h
  split at h
  · cases h
  · dsimp only at h
    split_ifs at h
    exact ⟨_, hscan.field_inside 0 _, _, (Option.some.inj h).symm⟩

theorem assignedQcfg_cases (hscan : Quotes scan inside) (h : assignedQcfg scan q c = some q') :
    atQcfgPrefix <+: c.chars ∧ ∃ n : Qcfg.Name, inside n.chars ∧
      q' = q.withEntry n fun _ => .modified := by
  unfold assignedQcfg at h
  dsimp only at h
  split_ifs at h with hp
  exact ⟨Str.startsWith_iff.mp hp, _, hscan.field_inside 0 _, (Option.some.inj h).symm⟩

/-- Whether an `OK` assigns depends on the names only. -/
theorem assignedQcfg_isSome_congr (h : q.settings = q'.settings) :
    (assignedQcfg scan q c).isSome = (assignedQcfg scan q' c).isSome := by
  unfold assignedQcfg
  simp only [Qcfg.hasEntry_eq, h]
  split_ifs <;> rfl

/-- What the responses keep of the registry: the entries, and an unknown state they
cannot spell. -/
theorem settings_applyLine (hscan : Quotes scan inside) :
    (s.applyLine scan l).qcfg.settings = s.qcfg.settings ∧
      (s.qcfg.Unspelled inside → (s.applyLine scan l).qcfg.Unspelled inside) := by
  have hqueried : ((queriedQcfg scan s.qcfg l).getD s.qcfg).settings = s.qcfg.settings ∧
      (s.qcfg.Unspelled inside → ((queriedQcfg scan s.qcfg l).getD s.qcfg).Unspelled inside) := by
    cases hq : queriedQcfg scan s.qcfg l with
    | none => exact ⟨rfl, id⟩
    | some q' =>
      obtain ⟨n, hn, v, rfl⟩ := queriedQcfg_cases hscan hq
      exact ⟨Qcfg.settings_withEntry, fun h => h.withEntry hn⟩
  have hafter : (s.qcfgAfter scan l).settings = s.qcfg.settings ∧
      (s.qcfg.Unspelled inside → (s.qcfgAfter scan l).Unspelled inside) := by
    unfold qcfgAfter
    dsimp only
    cases ha : assignmentOf scan s.pendingCommand ((queriedQcfg scan s.qcfg l).getD s.qcfg) l with
    | none => exact hqueried
    | some q' =>
      unfold assignmentOf at ha
      split at ha
      · obtain ⟨c, -, hc⟩ := Option.bind_eq_some_iff.mp ha
        obtain ⟨-, n, hn, rfl⟩ := assignedQcfg_cases hscan hc
        exact ⟨Qcfg.settings_withEntry.trans hqueried.1, fun h => (hqueried.2 h).withEntry hn⟩
      · cases ha
  rw [qcfg_applyLine]
  split
  · exact ⟨Qcfg.settings_invalidate.trans hafter.1, fun _ => Qcfg.unspelled_invalidate⟩
  · exact hafter

/-- An entry is modified before a line, or by the `OK` to a command that assigns. -/
theorem modified_applyLine (hscan : Quotes scan inside) (he : e ∈ (s.applyLine scan l).qcfg)
    (hs : e.state = .modified) : ¬ s.ConfirmsReboot l ∧ ((∃ e ∈ s.qcfg, e.state = .modified) ∨
      l = lineOk ∧ ∃ c, s.pendingCommand = some c ∧ (assignedQcfg scan s.qcfg c).isSome) := by
  rw [qcfg_applyLine] at he
  split at he
  · obtain ⟨e', -, rfl⟩ := List.mem_map.mp he
    cases hs
  · rename_i hconf
    refine ⟨hconf, ?_⟩
    have hqueried : ((queriedQcfg scan s.qcfg l).getD s.qcfg).settings = s.qcfg.settings ∧
        ∀ e ∈ (queriedQcfg scan s.qcfg l).getD s.qcfg, e.state = .modified → e ∈ s.qcfg := by
      cases hq : queriedQcfg scan s.qcfg l with
      | none => exact ⟨rfl, fun e he _ => he⟩
      | some q' =>
        obtain ⟨n, -, v, rfl⟩ := queriedQcfg_cases hscan hq
        refine ⟨Qcfg.settings_withEntry, fun e he hs => ?_⟩
        rcases Qcfg.mem_withEntry he with he | ⟨e', -, -, rfl⟩
        · exact he
        · dsimp only at hs
          split_ifs at hs
    unfold qcfgAfter at he
    dsimp only at he
    cases ha : assignmentOf scan s.pendingCommand ((queriedQcfg scan s.qcfg l).getD s.qcfg) l with
    | none =>
      rw [ha] at he
      exact .inl ⟨e, hqueried.2 e he hs, hs⟩
    | some q' =>
      unfold assignmentOf at ha
      split at ha
      · rename_i hl
        obtain ⟨c, hc, hassigned⟩ := Option.bind_eq_some_iff.mp ha
        refine .inr ⟨hl, c, hc, ?_⟩
        rw [← assignedQcfg_isSome_congr hqueried.1, hassigned]
        rfl
      · cases ha

end Status

-- ---------------------------------------------------------------------------
-- Commands of the driver
-- ---------------------------------------------------------------------------

/-- A ring command that neither reboots the modem nor assigns a setting. -/
def Harmless (scan : Scanner) (q : Qcfg) (c : Command) : Prop :=
  c.chars ≠ atReboot ∧ (Status.assignedQcfg scan q c).isSome = false

instance (scan : Scanner) (q : Qcfg) : DecidablePred (Harmless scan q) := fun c =>
  inferInstanceAs (Decidable (c.chars ≠ atReboot ∧ (Status.assignedQcfg scan q c).isSome = false))

/-- The operation is for an entry of the registry, and no ring command does its work. -/
def Request.Regular (scan : Scanner) (q : Qcfg) : Request k → Prop
  | .ring command => Harmless scan q command
  | .queryQcfg name => ∃ value, (name, value) ∈ q.settings
  | .assignQcfg name value => (name, value) ∈ q.settings
  | _ => True

theorem Request.kind_of_qcfg (r : Request k) (h : atQcfgPrefix <+: r.command.chars) :
    k = .ring ∨ k = .queryQcfg ∨ k = .assignQcfg := by
  have hv := r.verb_prefix_or h
  cases r with
  | checkReady => revert h; decide
  | ring command => exact .inl rfl
  | queryQcfg name => exact .inr (.inl rfl)
  | assignQcfg name value => exact .inr (.inr rfl)
  | _ => revert hv; decide

namespace Obs

/-- An `OK` to the assignment of one of the settings. -/
def acknowledges (settings : List (Qcfg.Name × Qcfg.Value)) : Obs → Bool
  | .line l (some c) => l = lineOk &&
    settings.any fun (name, value) => c = (Request.assignQcfg name value).command
  | _ => false

/-- An `OK` while `AT+CFUN=1,1` is pending. -/
def confirmsReboot : Obs → Bool
  | .line l (some c) => l = lineOk && c.chars = atReboot
  | _ => false

theorem confirmsReboot_line {s : Status} :
    (line l s.pendingCommand).confirmsReboot = true ↔ s.ConfirmsReboot l := by
  unfold Status.ConfirmsReboot
  cases s.pendingCommand with
  | none => simp [confirmsReboot, Status.isPending]
  | some c => simp [confirmsReboot, Status.isPending]

end Obs

variable {scan : Scanner} {inside : Text → Prop} {q : Qcfg}

/-- Of the commands for the registry only the assignments assign. -/
theorem acknowledges_of_assigned (hscan : Quotes scan inside) (hq : ∀ p ∈ q.settings, inside p.1.chars)
    {r : Request k} (hr : r.Regular scan q)
    (ha : (Status.assignedQcfg scan q r.command).isSome = true) :
    (Obs.line lineOk (some r.command)).acknowledges q.settings = true := by
  obtain ⟨q', hq'⟩ := Option.isSome_iff_exists.mp ha
  obtain ⟨hstart, -⟩ := Status.assignedQcfg_cases hscan hq'
  rcases r.kind_of_qcfg hstart with rfl | rfl | rfl
  · cases r
    exact absurd (hr.2.symm.trans ha) Bool.false_ne_true
  · -- a query has no second field
    cases r with
    | queryQcfg name =>
      obtain ⟨value, hmem⟩ := hr
      have hattr : (Str.ofText 100 ((Request.queryQcfg name).command.chars.drop
          atQcfgPrefix.length)).chars = '"' :: (name.chars ++ ['"']) := by
        have hn := name.noNul
        have hnl := name.fits
        rw [QcfgExchange.chars_queryCommand, List.drop_left]
        refine Str.chars_ofText ?_ ?_
        · simp [hn]
        · simp
          omega
      unfold Status.assignedQcfg at hq'
      simp only [hscan.no_second_field (hq _ hmem) hattr] at hq'
      split_ifs at hq' with hp hv
      exact absurd (by simp [Str.cast, Str.ofText, cstring]) hv
  · cases r with
    | assignQcfg name value =>
      simp only [Obs.acknowledges, decide_true, Bool.true_and, List.any_eq_true, decide_eq_true_eq]
      exact ⟨_, hr, rfl⟩

-- ---------------------------------------------------------------------------
-- What a pass does to the settings and the reboot
-- ---------------------------------------------------------------------------

namespace Control

variable {c : Control} {st : Status} {config : Config} {k : Kind}

theorem queryUnknown_cases {q : Qcfg} (h : (c.queryUnknown st q).ops .queryQcfg = some op) :
    c.ops .queryQcfg = some op ∨ ∃ e ∈ q, op = { request := .queryQcfg e.name } := by
  have hkept : (c.destructIf (c.submitted .queryQcfg && st.error) .queryQcfg).ops .queryQcfg = some op →
      c.ops .queryQcfg = some op := by
    intro h
    unfold destructIf at h
    split at h
    · rw [destruct_ops_self] at h
      cases h
    · exact h
  unfold queryUnknown at h
  dsimp only at h
  split at h
  · exact .inl (hkept h)
  · split at h
    · exact .inl (hkept h)
    · rename_i e he
      rw [construct_ops_self, Option.some.injEq] at h
      exact .inr ⟨e, List.mem_of_find?_eq_some he, h.symm⟩

theorem assignMismatching_cases {q : Qcfg} (h : (c.assignMismatching q).ops .assignQcfg = some op) :
    c.ops .assignQcfg = some op ∨ ∃ e ∈ q, op = { request := .assignQcfg e.name e.value } := by
  unfold assignMismatching at h
  split at h
  · exact .inl h
  · split at h
    · exact .inl h
    · rename_i e he
      rw [construct_ops_self, Option.some.injEq] at h
      exact .inr ⟨e, List.mem_of_find?_eq_some he, h.symm⟩

theorem applyQcfg_cases (st : Status) (c : Control) :
    c.applyQcfg st st.qcfg = (c.queryUnknown st st.qcfg).assignMismatching st.qcfg ∨
    ∀ k, k ≠ .reboot → (c.applyQcfg st st.qcfg).ops k = none := by
  cases hd : c.rebootDue st with
  | false => exact .inl (rebootIfNeeded_of_not_due (rebootDue_settings.trans hd))
  | true =>
    rw [applyQcfg_of_due hd]
    exact .inr fun k hk => construct_ops_of_ne hk

/-- An operation found after the settings was there before or is for what they read. -/
theorem applySettings_regular {q : Qcfg} (hq : st.qcfg.settings = q.settings)
    (hring : ∀ t ∈ config.ring, Harmless scan q (Command.ofText t))
    (hc : ∀ k op, c.ops k = some op → op.request.Regular scan q)
    (h : (c.applySettings st config).ops k = some op) : op.request.Regular scan q := by
  have hbefore : ∀ {k}, k ∉ [Kind.requestPinState, .setPin, .requestPinCount, .powerDown, .hangUp,
      .requestCallList] → k ∉ [Kind.acceptCall, .initiateCall] → k ≠ .ring →
      (c.applySettings st config).ops k = (c.applyQcfg st st.qcfg).ops k := by
    intro k hk hk' hne
    rw [applySettings_ops config hne, beforeRing_ops config hk', beforeCall_ops config hk]
  obtain ⟨r, state⟩ := op
  cases r with
  | ring command =>
    rcases applySettings_ring_cases h with h | ⟨t, ht, he⟩
    · exact hc _ _ h
    · cases he
      exact hring t ht
  | queryQcfg name =>
    rw [hbefore (by decide) (by decide) (by decide)] at h
    rcases applyQcfg_cases st c with he | hnone
    · rw [he, (touches_assignMismatching _).ops _ (by decide)] at h
      rcases queryUnknown_cases h with h | ⟨e, he, hop⟩
      · exact hc _ _ h
      · cases hop
        exact ⟨e.value, hq ▸ Qcfg.mem_settings he⟩
    · rw [hnone _ (by decide)] at h
      cases h
  | assignQcfg name value =>
    rw [hbefore (by decide) (by decide) (by decide)] at h
    rcases applyQcfg_cases st c with he | hnone
    · rw [he] at h
      rcases assignMismatching_cases h with h | ⟨e, he, hop⟩
      · rw [(touches_queryUnknown _).ops _ (by decide)] at h
        exact hc _ _ h
      · cases hop
        have hmem : (e.name, e.value) ∈ q.settings := hq ▸ Qcfg.mem_settings he
        exact hmem
    · rw [hnone _ (by decide)] at h
      cases h
  | _ => trivial

theorem pass_regular {q : Qcfg} (hq : st.qcfg.settings = q.settings)
    (hring : ∀ t ∈ config.ring, Harmless scan q (Command.ofText t))
    (hc : ∀ k op, c.ops k = some op → op.request.Regular scan q)
    (h : (c.pass st config).ops k = some op) : op.request.Regular scan q := by
  have hprobe : ∀ {c' : Control}, Touches [.checkReady, .disableEcho] (c.completeOperation st) c' →
      ∀ k op, c'.ops k = some op → op.request.Regular scan q := by
    intro c' ht k op h
    have hkept : k ∉ [Kind.checkReady, .disableEcho] → op.request.Regular scan q := fun hk =>
      hc k op (completeOperation_ops ((ht.ops k hk).symm.trans h))
    obtain ⟨r, state⟩ := op
    cases r with
    | ring command => exact hkept (by decide)
    | queryQcfg name => exact hkept (by decide)
    | assignQcfg name value => exact hkept (by decide)
    | _ => trivial
  rcases pass_cases c st config with ht | ⟨-, c', ht, he⟩
  · exact hprobe ht k op h
  · rw [he] at h
    exact applySettings_regular hq hring (hprobe ht) h

/-- A pass leaves the reboot alone, or finds it absent and no entry in between. -/
theorem pass_reboot (c : Control) (st : Status) (config : Config) :
    (c.pass st config).ops .reboot = (c.completeOperation st).ops .reboot ∨
      (c.completeOperation st).constructed .reboot = false ∧ st.qcfg.rebootNeeded = true := by
  rcases pass_cases c st config with ht | ⟨-, c', ht, he⟩
  · exact .inl (ht.ops _ (by decide))
  · have hreboot : c'.ops .reboot = (c.completeOperation st).ops .reboot := ht.ops _ (by decide)
    cases hd : c'.rebootDue st with
    | false => exact .inl (he ▸ (applySettings_reboot_of_not_due config hd).trans hreboot)
    | true =>
      unfold rebootDue at hd
      rw [Bool.and_eq_true, Bool.not_eq_true', constructed_congr hreboot] at hd
      exact .inr hd

end Control

-- ---------------------------------------------------------------------------
-- The invariant
-- ---------------------------------------------------------------------------

/-- An assignment was acknowledged, and no reboot confirmed since. -/
abbrev Acknowledged (settings : List (Qcfg.Name × Qcfg.Value)) (h : List Obs) : Prop :=
  Open (Obs.acknowledges settings · = true) (Obs.confirmsReboot · = true) h

/-- What a run keeps: a modified entry, a reboot to be submitted and a reboot in flight
are there only since an assignment was acknowledged. -/
structure Earning (scan : Scanner) (inside : Text → Prop) (q : Qcfg) (h : List Obs) (s : Status)
    (c : Control) : Prop where
  earned : Earned (Obs.acknowledges q.settings · = true) (Obs.confirmsReboot · = true) h
  entries : s.qcfg.settings = q.settings
  unspelled : s.qcfg.Unspelled inside
  fresh : s.Fresh
  regular : ∀ k op, c.ops k = some op → op.request.Regular scan q
  pending : ∀ cmd, s.pendingCommand = some cmd →
    ∃ k, ∃ r : Request k, r.Regular scan q ∧ r.command = cmd
  modified : (∀ p ∈ q.settings, inside p.1.chars) → (∃ e ∈ s.qcfg, e.state = .modified) →
    Acknowledged q.settings h
  waiting : c.pending .reboot → Acknowledged q.settings h
  commanded : Status.isPending s.pendingCommand atReboot = true →
    c.submitted .reboot ∧ Acknowledged q.settings h

namespace Earning

variable {h : List Obs} {s : Status} {c : Control} {config : Config}

/-- No entry without a spelling, and thus no unheard one, is left when a reboot is needed. -/
theorem due (he : Earning scan inside q h s c) (hneeded : s.qcfg.rebootNeeded = true) :
    Acknowledged q.settings h := by
  obtain ⟨hknown, hmod⟩ := Qcfg.rebootNeeded_iff.mp hneeded
  refine he.modified (fun p hp => ?_) hmod
  rw [← he.entries] at hp
  obtain ⟨e, hmem, rfl⟩ := List.mem_map.mp hp
  by_contra hno
  exact (hknown e hmem).1 (he.unspelled e hmem hno)

/-- An entry of the log that confirms no reboot. -/
theorem snoc (he : Earning scan inside q h s c) {x : Obs} (hr : x.confirmsReboot = false) :
    Earning scan inside q (h ++ [x]) s c := by
  have hopen : Acknowledged q.settings h → Acknowledged q.settings (h ++ [x]) := fun ho =>
    Library.open_snoc.mpr (.inr ⟨ho, by simp [hr]⟩)
  exact { he with
    earned := Library.earned_snoc.mpr ⟨he.earned, by simp [hr]⟩
    modified := fun hq hm => hopen (he.modified hq hm)
    waiting := fun hp => hopen (he.waiting hp)
    commanded := fun hp => (he.commanded hp).imp_right hopen }

/-- What confirms a reboot is no `OK` to a reboot that is yet to be submitted. -/
theorem line (hscan : Quotes scan inside) (he : Earning scan inside q h s c) (l : Text) :
    Earning scan inside q (h ++ [.line l s.pendingCommand]) (s.applyLine scan l) c := by
  obtain ⟨hsettings, hunspelled⟩ := Status.settings_applyLine (s := s) (l := l) hscan
  have hkeeps : ¬ s.ConfirmsReboot l → Acknowledged q.settings h →
      Acknowledged q.settings (h ++ [.line l s.pendingCommand]) := fun hno ho =>
    Library.open_snoc.mpr (.inr ⟨ho, fun hx => hno (Obs.confirmsReboot_line.mp hx)⟩)
  have hpend : ∀ {cmd}, (s.applyLine scan l).pendingCommand = some cmd →
      s.pendingCommand = some cmd := by
    intro cmd hp
    rw [Status.pendingCommand_applyLine] at hp
    split at hp
    · cases hp
    · exact hp
  exact {
    earned := Library.earned_snoc.mpr ⟨he.earned, fun hx =>
      (he.commanded (Obs.confirmsReboot_line.mp hx).2).2⟩
    entries := hsettings.trans he.entries
    unspelled := hunspelled he.unspelled
    fresh := he.fresh.applyLine
    regular := he.regular
    pending := fun cmd hp => he.pending cmd (hpend hp)
    modified := by
      rintro hq ⟨e, hmem, hs⟩
      obtain ⟨hno, hmod | ⟨rfl, cmd, hcmd, ha⟩⟩ := Status.modified_applyLine hscan hmem hs
      · exact hkeeps hno (he.modified hq hmod)
      · obtain ⟨k, r, hr, rfl⟩ := he.pending cmd hcmd
        rw [Status.assignedQcfg_isSome_congr he.entries] at ha
        rw [hcmd]
        exact Library.open_snoc.mpr (.inl (acknowledges_of_assigned hscan hq hr ha))
    waiting := by
      intro hp
      refine hkeeps (fun hconf => ?_) (he.waiting hp)
      exact Control.not_submitted_of_pending hp (he.commanded hconf.2).1
    commanded := by
      intro hp
      obtain ⟨hp, hl⟩ := Status.isPending_applyLine hp
      refine (he.commanded hp).imp_right (hkeeps ?_)
      rintro ⟨rfl, -⟩
      exact absurd hl (by decide) }

/-- A pass constructs a reboot only where it is due, and leaves the one in flight. -/
theorem pass (he : Earning scan inside q h s c)
    (hring : ∀ t ∈ config.ring, Harmless scan q (Command.ofText t)) :
    Earning scan inside q h s (c.pass s config) where
  earned := he.earned
  entries := he.entries
  unspelled := he.unspelled
  fresh := he.fresh
  regular _ _ := Control.pass_regular he.entries hring he.regular
  pending := he.pending
  modified := he.modified
  waiting hp := by
    rcases Control.pass_reboot c s config with hsame | ⟨-, hneeded⟩
    · obtain ⟨op, hop, hs⟩ := Control.pending_iff.mp hp
      exact he.waiting (Control.pending_iff.mpr
        ⟨op, Control.completeOperation_ops (hsame.symm.trans hop), hs⟩)
    · exact he.due hneeded
  commanded hp := by
    obtain ⟨hsub, hack⟩ := he.commanded hp
    have hsome : s.pendingCommand ≠ none := by
      intro hnone
      simp [Status.isPending, hnone] at hp
    have hcomp : c.completeOperation s = c := Control.completeOperation_of_not_ok (he.fresh hsome).1
    refine ⟨?_, hack⟩
    rcases Control.pass_reboot c s config with hsame | ⟨habsent, -⟩
    · obtain ⟨op, hop, hs⟩ := Control.submitted_iff.mp hsub
      exact Control.submitted_iff.mpr ⟨op, by rw [hsame, hcomp, hop], hs⟩
    · rw [hcomp, Control.constructed_of_submitted hsub] at habsent
      cases habsent

/-- The reboot that was waiting is in flight. -/
theorem submitted (he : Earning scan inside q h s c) {r : Request k}
    (hop : c.ops k = some { request := r }) :
    Earning scan inside q h (s.commandSubmitted r.command)
      { c with ops := Function.update c.ops k (some { request := r, state := .submitted }) } := by
  have hregular : r.Regular scan q := he.regular k _ hop
  have hqcfg : (s.commandSubmitted r.command).qcfg = s.qcfg := by rw [Status.commandSubmitted_eq]
  have hpend : (s.commandSubmitted r.command).pendingCommand = some r.command := by
    rw [Status.commandSubmitted_eq]
  set c' : Control :=
    { c with ops := Function.update c.ops k (some { request := r, state := .submitted }) } with hc'
  have hself : c'.ops k = some ⟨r, .submitted⟩ := by simp [hc']
  have hne : ∀ {j}, j ≠ k → c'.ops j = c.ops j := fun hj => by simp [hc', hj]
  exact {
    earned := he.earned
    entries := hqcfg ▸ he.entries
    unspelled := hqcfg ▸ he.unspelled
    fresh := Status.fresh_commandSubmitted
    regular := by
      intro j op hj
      by_cases hjk : j = k
      · subst hjk
        rw [hself, Option.some.injEq] at hj
        exact hj ▸ hregular
      · exact he.regular j op (hne hjk ▸ hj)
    pending := by
      intro cmd hcmd
      rw [hpend, Option.some.injEq] at hcmd
      exact ⟨k, r, hregular, hcmd⟩
    modified := hqcfg ▸ he.modified
    waiting := by
      intro hp
      obtain ⟨op, hop', hs⟩ := Control.pending_iff.mp hp
      by_cases hk : Kind.reboot = k
      · subst hk
        rw [hself, Option.some.injEq] at hop'
        rw [← hop'] at hs
        cases hs
      · exact he.waiting (Control.pending_iff.mpr ⟨op, hne hk ▸ hop', hs⟩)
    commanded := by
      intro hp
      have hchars : r.command.chars = atReboot := by simpa [Status.isPending, hpend] using hp
      rcases r.kind_of_reboot hchars with rfl | rfl
      · cases r
        exact absurd hchars hregular.1
      · exact ⟨Control.submitted_iff.mpr ⟨_, hself, rfl⟩,
          he.waiting (Control.pending_iff.mpr ⟨_, hop, rfl⟩)⟩ }

end Earning

-- ---------------------------------------------------------------------------
-- Runs
-- ---------------------------------------------------------------------------

namespace Driver

variable {maxLineLen : Nat} {d : Driver maxLineLen} {h : List Obs}

/-- In the run of `d` reboots are earned. -/
def Earns (scan : Scanner) (inside : Text → Prop) (q : Qcfg) (h : List Obs) (d : Driver maxLineLen) : Prop :=
  Earning scan inside q h d.status d.control

theorem earns_init (scan : Scanner) (inside : Text → Prop) (settings : List (Qcfg.Name × Qcfg.Value)) :
    Earns scan inside (init maxLineLen settings).status.qcfg [] (init maxLineLen settings) where
  earned := Library.earned_nil
  entries := rfl
  unspelled e he _ := by
    obtain ⟨p, -, rfl⟩ := List.mem_map.mp he
    rfl
  fresh hp := absurd rfl hp
  regular _ _ hop := by cases hop
  pending _ hp := by cases hp
  modified _ hm := by
    obtain ⟨e, he, hs⟩ := hm
    obtain ⟨p, -, rfl⟩ := List.mem_map.mp he
    cases hs
  waiting hp := by cases hp
  commanded hp := by cases hp

theorem Earns.apply (hscan : Quotes scan inside) (he : Earns scan inside q h d) {responses : List Text}
    (hring : ∀ t ∈ config.ring, Harmless scan q (Command.ofText t)) :
    Earns scan inside q (h ++ (system scan maxLineLen).obs d (.apply config responses))
      (d.apply scan config responses).1 := by
  have hlines : Earning scan inside q (h ++ lineObs scan d.status (d.linesOf responses))
      (d.received scan responses) d.control :=
    lineObs_invariant (I := fun h s => Earning scan inside q h s d.control)
      (fun _ _ l h => h.line hscan l) he
  have hpass : Earning scan inside q _ _ _ := (hlines.pass hring).snoc
    (x := .configured config (d.received scan responses) (d.control.pass (d.received scan responses) config))
    rfl
  unfold Earns
  rw [obs_apply]
  rcases apply_cases scan d config responses with
    ⟨hsub, hstatus, hcontrol, -⟩ | ⟨k, r, hsub, hstatus, hcontrol, -, hop, -⟩
  · rw [hsub, hstatus, hcontrol, ← List.append_assoc]
    exact hpass
  · rw [hsub, hstatus, hcontrol]
    have hlog := (hpass.submitted hop).snoc
      (x := .submitted config (d.received scan responses) ⟨k, r⟩) rfl
    simpa using hlog

theorem Earns.cancelCommand (he : Earns scan inside q h d) :
    Earns scan inside q (h ++ (system scan maxLineLen).obs d .cancelCommand) d.cancelCommand := by
  have hops : ∀ {k op}, d.cancelCommand.control.ops k = some op → d.control.ops k = some op :=
    fun hop => cancelCommand_ops hop
  have hpend : d.cancelCommand.status.pendingCommand = none := by
    unfold Driver.cancelCommand
    cases hp : d.status.pendingCommand with
    | none => exact hp
    | some cmd => rfl
  have hqcfg : d.cancelCommand.status.qcfg = d.status.qcfg := by
    unfold Driver.cancelCommand
    cases d.status.pendingCommand <;> rfl
  have hcanceled : Earns scan inside q h d.cancelCommand := {
    earned := he.earned
    entries := hqcfg ▸ he.entries
    unspelled := hqcfg ▸ he.unspelled
    fresh := fun hp => absurd hpend hp
    regular := fun k op hop => he.regular k op (hops hop)
    pending := fun cmd hp => by
      rw [hpend] at hp
      cases hp
    modified := hqcfg ▸ he.modified
    waiting := fun hp => by
      obtain ⟨op, hop, hs⟩ := Control.pending_iff.mp hp
      exact he.waiting (Control.pending_iff.mpr ⟨op, hops hop, hs⟩)
    commanded := fun hp => by
      rw [hpend] at hp
      cases hp }
  change Earns scan inside q (h ++ d.status.pendingCommand.toList.map .canceled) _
  cases d.status.pendingCommand with
  | none => simpa using hcanceled
  | some cmd => exact hcanceled.snoc rfl

/-- At the moment a reboot gets constructed no entry is unknown or differs. -/
def RebootsConsistent (scan : Scanner) (d : Driver maxLineLen) : Event → Prop
  | .apply config responses =>
    let st := d.received scan responses
    (d.control.completeOperation st).constructed .reboot = false →
      (d.control.pass st config).constructed .reboot = true →
      ∀ e ∈ st.qcfg, e.state ≠ .unknown ∧ e.state ≠ .mismatch
  | .invalidateCallList => True
  | .cancelCommand => True

theorem rebootsConsistent (d : Driver maxLineLen) (e : Event) : RebootsConsistent scan d e := by
  cases e with
  | apply config responses =>
    intro habsent hcons
    rcases Control.pass_reboot d.control (d.received scan responses) config with hsame | ⟨-, hneeded⟩
    · rw [Control.constructed_congr hsame, habsent] at hcons
      cases hcons
    · exact (Qcfg.rebootNeeded_iff.mp hneeded).1
  | invalidateCallList => trivial
  | cancelCommand => trivial

/-- On every run whose ring commands neither reboot nor assign, a reboot is confirmed only
after an assignment was acknowledged, each after one of its own. -/
theorem no_spurious_reboot (hscan : Quotes scan inside) (maxLineLen : Nat)
    (settings : List (Qcfg.Name × Qcfg.Value)) (es : List Event)
    (hring : ∀ e ∈ es, RingText (Harmless scan (init maxLineLen settings).status.qcfg) e) :
    let log := (system scan maxLineLen).log (init maxLineLen settings) es
    Earned (Obs.acknowledges settings · = true) (Obs.confirmsReboot · = true) log ∧
      log.countP Obs.confirmsReboot ≤ log.countP (Obs.acknowledges settings) ∧
      (system scan maxLineLen).Along (RebootsConsistent scan) (init maxLineLen settings) es := by
  intro log
  set q := (init maxLineLen settings).status.qcfg with hq
  have hsettings : q.settings = settings := by
    simp [hq, init, Qcfg.settings, Function.comp_def]
  have hstep : ∀ (h : List Obs) (d : Driver maxLineLen) e, Earns scan inside q h d →
      RingText (Harmless scan q) e → Earns scan inside q (h ++ (system scan maxLineLen).obs d e)
        ((system scan maxLineLen).next d e) := by
    intro h d e he hring
    cases e with
    | apply config responses => exact he.apply hscan hring
    | invalidateCallList =>
      change Earns scan inside q (h ++ []) d.invalidateCallList
      rw [List.append_nil]
      exact { he with }
    | cancelCommand => exact he.cancelCommand
  have hrun : Earns scan inside q ([] ++ log) ((system scan maxLineLen).run (init maxLineLen settings) es) :=
    System.log_invariant (C := fun _ e => RingText (Harmless scan q) e) hstep
      (earns_init scan inside settings)
      ((System.along_of_forall (C := fun _ _ => True) fun _ _ => trivial).and_forall hring |>.mono
        fun _ _ h => h.2)
  have hearned := hrun.earned
  rw [hsettings] at hearned
  exact ⟨hearned, hearned.countP_le.1, System.along_of_forall rebootsConsistent⟩

/-- The ring command asks for the signal quality, and the modem is rebooted for its setting. -/
theorem reboot_earned :
    let log := (system responseScanner 64).log (init 64 usbnet) (rebooted { ring := some "AT+CSQ".toList })
    log.countP Obs.confirmsReboot = 1 ∧
      Earned (Obs.acknowledges usbnet · = true) (Obs.confirmsReboot · = true) log :=
  ⟨by decide +kernel, (no_spurious_reboot responseScanner_quotes 64 usbnet
    (rebooted { ring := some "AT+CSQ".toList }) (by decide +kernel)).1⟩

/-- The setting is confirmed already when the phone rings. -/
def ringing (ring : Text) : List Event :=
  startup ++ [.apply {} ["+QCFG: \"usbnet\",1\r\nOK\r\n".toList], answer lineOk,
    answer lineRing { ring := some ring }, answer lineOk, answer lineOk]

/-- A ring command may be the reboot itself, or assign another value. -/
def rebootRing : Text := "AT+CFUN=1,1".toList

def assignRing : Text := "AT+QCFG=\"usbnet\",2".toList

theorem ringing_counts :
    [rebootRing, assignRing].all (fun ring =>
      let log := (system responseScanner 64).log (init 64 usbnet) (ringing ring)
      log.countP Obs.confirmsReboot = 1 ∧ log.countP (Obs.acknowledges usbnet) = 0) = true := by
  decide +kernel

theorem not_earned_of_counts {log : List Obs} {settings : List (Qcfg.Name × Qcfg.Value)}
    (hconfirms : log.countP Obs.confirmsReboot = 1)
    (hacks : log.countP (Obs.acknowledges settings) = 0) :
    ¬ Earned (Obs.acknowledges settings · = true) (Obs.confirmsReboot · = true) log := by
  intro he
  have hle := he.countP_le.1
  omega

theorem spurious_reboot :
    ((system responseScanner 64).log (init 64 usbnet) (ringing rebootRing)).countP
        Obs.confirmsReboot = 1 ∧
      ¬ Earned (Obs.acknowledges usbnet · = true) (Obs.confirmsReboot · = true)
        ((system responseScanner 64).log (init 64 usbnet) (ringing rebootRing)) ∧
      ((system responseScanner 64).log (init 64 usbnet) (ringing assignRing)).countP
        Obs.confirmsReboot = 1 ∧
      ¬ Earned (Obs.acknowledges usbnet · = true) (Obs.confirmsReboot · = true)
        ((system responseScanner 64).log (init 64 usbnet) (ringing assignRing)) := by
  have hcounts := ringing_counts
  simp only [List.all_cons, List.all_nil, Bool.and_true, Bool.and_eq_true, decide_eq_true_eq]
    at hcounts
  obtain ⟨⟨hreboot, hnoack⟩, hassign, hnoassign⟩ := hcounts
  exact ⟨hreboot, not_earned_of_counts hreboot hnoack, hassign,
    not_earned_of_counts hassign hnoassign⟩

end Driver

end Allwinner.Modem
