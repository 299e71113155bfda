import Allwinner.Scp.Strings

/-!
# What the words of the firmware print

`emit` goes through the execution token in `emit_xt`, which an application may
replace. An `Emitter` is whatever that token does with a character, as long as it
touches nothing but memory of its own.
-/

namespace Allwinner.Scp

open Library Memory
open Forth hiding ip ds rs mem io jump one two

@[ext]
structure Store where
  mem : Memory 32
  io : Io

/-- The text of a `MSG_XT`. -/
def Label.message : Label → Option String
  | msg_prompt => some "> " | msg_reset => some "reset!" | msg_hyphen => some "-"
  | msg_quote => some "'" | msg_colon => some ":" | msg_data => some "data"
  | msg_stack => some "stack" | msg_underflow => some "underflow"
  | msg_overflow => some "overflow" | msg_invalid => some "invalid" | msg_bus => some "bus"
  | msg_access => some "access" | msg_unaligned => some "unaligned" | msg_return => some "return"
  | msg_unknown => some "unknown" | msg_word => some "word" | msg_missing => some "missing"
  | msg_token => some "token" | msg_after => some "after" | msg_tick => some "tick"
  | msg_variable => some "variable" | msg_name => some "name"
  | _ => none

/-- From the first message to the static dictionary. -/
def message_cells : Set Nat := Set.Ico 0x10bb2 0x10cb8

/-- The messages stand in memory behind their words, as counted strings. -/
def Messages (m : Memory 32) : Prop := ∀ l s, Label.message l = some s →
  m (l.addr + 4) = BitVec.ofNat 8 s.length ∧ bytes m (l.addr + 4 + 1) s.length = ascii s

structure Label.IsMessage (l : Label) (s : String) : Prop where
  list : l.list = Label.MSG_XT
  prim : l.prim? = none
  length : s.length < 256
  low : 0x10bb2 ≤ (l.addr + 4).toNat
  high : (l.addr + 4).toNat + (s.length + 1) ≤ 0x10cb8

theorem Label.isMessage {l : Label} (h : l.message = some s) : l.IsMessage s := by
  cases l <;> first
    | (cases h; done)
    | (cases h; exact ⟨rfl, rfl, by decide, by decide, by decide⟩)

def chars (s : List Byte) : List Cell := s.map (·.setWidth 32)

/-- What the words print that take nothing from the stack. -/
def Label.output : Label → Option (List Cell)
  | cr => some [0x0a, 13]
  | space => some [0x20]
  | l => l.message.map fun s => chars (ascii s)

def Label.output_list (ls : List Label) : List Cell := ls.flatMap fun l => l.output.getD []

theorem Messages.kept (h : Messages m) (hkeeps : Keeps W m m') (hW : ∀ n ∈ W, n ∉ message_cells) :
    Messages m' := by
  intro l s hs
  have hl := Label.isMessage hs
  have hlow := hl.low
  have hhigh := hl.high
  have hnext : (l.addr + 4 + 1).toNat = (l.addr + 4).toNat + 1 :=
    toNat_add_ofNat (n := 1) (by omega)
  obtain ⟨hcount, htext⟩ := h l s hs
  refine ⟨(hkeeps _ fun hn => hW _ hn ⟨hlow, by omega⟩).trans hcount, (hkeeps.bytes ?_ ?_).trans htext⟩
  · omega
  · intro k hlo hhi hk
    exact hW k hk ⟨by omega, by omega⟩

variable [Board]

/-- `Does` for a word that may talk to the devices. -/
def Acts (l : Label) (u : Store) (pre post : List Cell) (u' : Store) : Prop :=
  ∀ ip ds rs, ∃ t, call false l ⟨ip, pre ++ ds, rs, u.mem, u.io, none⟩ = .on t ∧
    Leads t ⟨ip, post ++ ds, rs, u'.mem, u'.io, none⟩

theorem Does.acts (h : Does l m pre post m') : Acts l ⟨m, io⟩ pre post ⟨m', io⟩ :=
  fun ip ds rs => h ip ds rs io

theorem Acts.of_leads (hl : l.prim? = none) (h : ∀ ip ds rs,
    Leads ⟨.rom l 0, pre ++ ds, ip :: rs, u.mem, u.io, none⟩
      ⟨ip, post ++ ds, rs, u'.mem, u'.io, none⟩) : Acts l u pre post u' := by
  intro ip ds rs
  exact ⟨_, by simp [call, hl, dolist], h ip ds rs⟩

theorem Acts.at (h : Acts l u pre post u') {w : Label} {k : Nat} (hk : w.list[k]? = some (.xt l)) :
    Leads ⟨.rom w k, pre ++ ds, rs, u.mem, u.io, none⟩
      ⟨.rom w (k + 1), post ++ ds, rs, u'.mem, u'.io, none⟩ := by
  obtain ⟨t, ht, hleads⟩ := h (.rom w (k + 1)) ds rs
  refine .head ?_ hleads
  simpa [Steps, act, hk, token] using ht

theorem Acts.execute (h : Acts l u pre post u') (hl : l ∈ Label.all.drop 8) {w : Label} {k : Nat}
    (hk : w.list[k]? = some (.xt .execute)) :
    Leads ⟨.rom w k, l.offset.setWidth 32 :: (pre ++ ds), rs, u.mem, u.io, none⟩
      ⟨.rom w (k + 1), post ++ ds, rs, u'.mem, u'.io, none⟩ := by
  obtain ⟨t, ht, hleads⟩ := h (.rom w (k + 1)) ds rs
  refine .head (b := ⟨.rom w (k + 1), pre ++ ds, rs, u.mem, u.io, some l.addr⟩) ?_ (.head ?_ hleads)
  · simp [Steps, act, hk, token, call, Label.prim?, Prim.turn, Forth.one, Label.addr]
  · simpa [Steps, act, enter, Label.ofAddr?_addr hl] using ht

/-- A word that comes back leaves its machine in no state without a successor. -/
theorem Acts.stuck (h : Acts l u pre post u') (hl : l.prim? = none) {s : Forth}
    (hs : Leads ⟨.rom l 0, pre, [.rom .main 1000], u.mem, u.io, none⟩ s) (hend : ∀ v, ¬ s.Steps v) :
    s = ⟨.rom .main 1000, post, [], u'.mem, u'.io, none⟩ := by
  obtain ⟨t, ht, hleads⟩ := h (.rom .main 1000) [] []
  simp only [call, hl, dolist, Bool.false_and, Bool.false_eq_true, if_false, Turn.on.injEq,
    List.append_nil] at ht hleads
  exact Leads.unique hs (ht ▸ hleads) hend fun v hstep => by cases hstep

theorem Acts.unique (h : Acts l u pre post u') (h' : Acts l u pre post' u'') (hl : l.prim? = none) :
    post = post' ∧ u' = u'' := by
  obtain ⟨t, ht, hleads⟩ := h' (.rom .main 1000) [] []
  simp only [call, hl, dolist, Bool.false_and, Bool.false_eq_true, if_false, Turn.on.injEq,
    List.append_nil] at ht hleads
  have hend := h.stuck hl (ht ▸ hleads) fun v hstep => by cases hstep
  simp only [Forth.mk.injEq] at hend
  exact ⟨hend.2.1.symm, Store.ext hend.2.2.2.1.symm hend.2.2.2.2.1.symm⟩

-- ---------------------------------------------------------------------------
-- Emitters
-- ---------------------------------------------------------------------------

structure Emitter where
  /-- The memory the emitter rests on. It changes no other. -/
  footprint : Set Nat
  Ready : Store → Prop
  out : Store → Cell → Store
  acts : ∀ {u c}, Ready u → Acts .emit u [c] [] (out u c)
  ready : ∀ {u c}, Ready u → Ready (out u c)
  keeps : ∀ {u c}, Ready u → Keeps footprint u.mem (out u c).mem
  frame : ∀ {u u'}, Ready u → Keeps footprintᶜ u.mem u'.mem → Ready u'

namespace Emitter

variable (E : Emitter) {u : Store}

/-- The characters one after the other. -/
def say (u : Store) (cs : List Cell) : Store := cs.foldl E.out u

@[simp] theorem say_nil : E.say u [] = u := rfl

theorem say_append (cs cs' : List Cell) : E.say u (cs ++ cs') = E.say (E.say u cs) cs' :=
  List.foldl_append

theorem ready_say (h : E.Ready u) (cs : List Cell) : E.Ready (E.say u cs) := by
  induction cs generalizing u with
  | nil => exact h
  | cons c cs ih => exact ih (E.ready h)

theorem keeps_say (h : E.Ready u) (cs : List Cell) : Keeps E.footprint u.mem (E.say u cs).mem := by
  induction cs generalizing u with
  | nil => exact .refl
  | cons c cs ih => exact (E.keeps h).trans (ih (E.ready h))

end Emitter

/-- The characters go to the UART. -/
def uart [Sram] : Emitter where
  footprint := Set.Ico Label.emit_xt.storage.toNat (Label.emit_xt.storage.toNat + 4)
  Ready u := load32 u.mem Label.emit_xt.storage = Label.emit_uart.offset.setWidth 32
  out u c := { u with io := { u.io with sent := u.io.sent ++ [c] } }
  acts := by
    intro u c h
    refine .of_leads rfl fun ip ds rs => ?_
    have huart : Acts .emit_uart u [c] [] { u with io := { u.io with sent := u.io.sent ++ [c] } } :=
      fun ip ds rs => ⟨_, rfl, .refl⟩
    calc
      Leads ⟨.rom .emit 0, c :: ds, ip :: rs, u.mem, u.io, none⟩
        ⟨.rom .emit 2, Label.emit_uart.offset.setWidth 32 :: c :: ds, ip :: rs, u.mem, u.io, none⟩ := by
          rw [← h]
          exact (Label.Var.of_isVar rfl).fetch rfl rfl
      Leads _ _ := huart.execute (by decide) rfl
      Leads _ _ := run_leads (n := 1) rfl
  ready h := h
  keeps _ := .refl
  frame := by
    intro u u' h hkeeps
    rw [← h]
    refine hkeeps.load32 (by decide) fun n hlo hhi hn => hn ⟨hlo, hhi⟩

-- ---------------------------------------------------------------------------
-- Texts
-- ---------------------------------------------------------------------------

section Texts

variable (E : Emitter) {u : Store}

theorem type_char (h : E.Ready u) (ha : Visible a) :
    Leads ⟨.rom .type 5, a :: ds, rs, u.mem, u.io, none⟩
      ⟨.rom .type 10, (a + 1) :: ds, rs, (E.out u ((u.mem a).setWidth 32)).mem,
        (E.out u ((u.mem a).setWidth 32)).io, none⟩ :=
  calc
    Leads ⟨.rom .type 5, a :: ds, rs, u.mem, u.io, none⟩
      ⟨.rom .type 7, a :: a :: ds, rs, u.mem, u.io, none⟩ := run_leads (n := 2) rfl
    Leads _ ⟨.rom .type 8, (u.mem a).setWidth 32 :: a :: ds, rs, u.mem, u.io, none⟩ :=
      (cat_does ha).at rfl
    Leads _ ⟨.rom .type 9, a :: ds, rs, (E.out u ((u.mem a).setWidth 32)).mem,
      (E.out u ((u.mem a).setWidth 32)).io, none⟩ := (E.acts h).at rfl
    Leads _ _ := run_leads (n := 9) rfl

theorem type_loop (n : Nat) {c : Cell} (hc : c.toNat = n) (h : E.Ready u) (ha : Readable a (n + 1))
    (hapart : Apart E.footprint a (n + 1)) :
    Leads ⟨.rom .type 5, a :: ds, .ram c :: ip :: rs, u.mem, u.io, none⟩
      ⟨ip, ds, rs, (E.say u (chars (bytes u.mem a (n + 1)))).mem,
        (E.say u (chars (bytes u.mem a (n + 1)))).io, none⟩ := by
  induction n generalizing c a u with
  | zero =>
    obtain rfl : c = 0 := BitVec.eq_of_toNat_eq hc
    refine (type_char E h (ha.head (by omega))).trans ?_
    exact (next_passed rfl).trans (run_leads (n := 2) rfl)
  | succ n ih =>
    have hne : c ≠ 0 := by rintro rfl; cases hc
    refine (type_char E h (ha.head (by omega))).trans ((next_taken rfl rfl hne).trans ?_)
    have hrest := (E.keeps (c := (u.mem a).setWidth 32) h).bytes_apart hapart.tail
    have hleads := ih (u := E.out u ((u.mem a).setWidth 32)) (c := c - 1)
      (by rw [toNat_pred hne]; omega) (E.ready h) ha.tail hapart.tail
    rw [hrest] at hleads
    exact hleads

theorem type_acts (n : Cell) (h : E.Ready u) (ha : Readable a n.toNat)
    (hapart : Apart E.footprint a n.toNat) :
    Acts .type u [n, a] [] (E.say u (chars (bytes u.mem a n.toNat))) := by
  refine .of_leads rfl fun ip ds rs => ?_
  by_cases hn : n = 0
  · subst hn
    exact (run_leads (n := 1) rfl).trans ((qbranch_taken rfl rfl rfl).trans (run_leads (n := 6) rfl))
  · have hpred := toNat_pred hn
    have hpos := pos_of_ne_zero hn
    obtain ⟨k, hk⟩ : ∃ k, n.toNat = k + 1 := ⟨n.toNat - 1, by omega⟩
    rw [hk] at ha hapart ⊢
    calc
      Leads ⟨.rom .type 0, n :: a :: ds, ip :: rs, u.mem, u.io, none⟩
        ⟨.rom .type 1, n :: n :: a :: ds, ip :: rs, u.mem, u.io, none⟩ := run_leads (n := 1) rfl
      Leads _ ⟨.rom .type 2, n :: a :: ds, ip :: rs, u.mem, u.io, none⟩ := qbranch_passed rfl hn
      Leads _ ⟨.rom .type 3, 1 :: n :: a :: ds, ip :: rs, u.mem, u.io, none⟩ := run_leads (n := 3) rfl
      Leads _ ⟨.rom .type 4, (n - 1) :: a :: ds, ip :: rs, u.mem, u.io, none⟩ := sub_does.at rfl
      Leads _ ⟨.rom .type 5, a :: ds, .ram (n - 1) :: ip :: rs, u.mem, u.io, none⟩ :=
        run_leads (n := 1) rfl
      Leads _ _ := type_loop E k (by omega) h ha hapart

theorem space_acts (h : E.Ready u) : Acts .space u [] [] (E.out u 0x20) :=
  .of_leads rfl fun ip ds rs =>
    calc
      Leads ⟨.rom .space 0, ds, ip :: rs, u.mem, u.io, none⟩
        ⟨.rom .space 1, 0x20 :: ds, ip :: rs, u.mem, u.io, none⟩ := run_leads (n := 3) rfl
      Leads _ ⟨.rom .space 2, ds, ip :: rs, (E.out u 0x20).mem, (E.out u 0x20).io, none⟩ :=
        (E.acts h).at rfl
      Leads _ _ := run_leads (n := 1) rfl

theorem cr_acts (h : E.Ready u) : Acts .cr u [] [] (E.say u [0x0a, 13]) :=
  .of_leads rfl fun ip ds rs =>
    calc
      Leads ⟨.rom .cr 0, ds, ip :: rs, u.mem, u.io, none⟩
        ⟨.rom .cr 1, 0x0a :: ds, ip :: rs, u.mem, u.io, none⟩ := run_leads (n := 3) rfl
      Leads _ ⟨.rom .cr 2, ds, ip :: rs, (E.out u 0x0a).mem, (E.out u 0x0a).io, none⟩ :=
        (E.acts h).at rfl
      Leads _ ⟨.rom .cr 3, 13 :: ds, ip :: rs, (E.out u 0x0a).mem, (E.out u 0x0a).io, none⟩ :=
        run_leads (n := 3) rfl
      Leads _ ⟨.rom .cr 4, ds, ip :: rs, (E.say u [0x0a, 13]).mem, (E.say u [0x0a, 13]).io, none⟩ :=
        (E.acts (E.ready h)).at rfl
      Leads _ _ := run_leads (n := 1) rfl

end Texts

-- ---------------------------------------------------------------------------
-- Messages
-- ---------------------------------------------------------------------------

/-- The firmware can print its messages. -/
structure Console (E : Emitter) (u : Store) : Prop where
  ready : E.Ready u
  messages : Messages u.mem
  apart : ∀ n ∈ E.footprint, n ∉ message_cells

section Messages

variable {E : Emitter} {u : Store}

theorem Console.say (h : Console E u) (cs : List Cell) : Console E (E.say u cs) :=
  ⟨E.ready_say h.ready cs, h.messages.kept (E.keeps_say h.ready cs) h.apart, h.apart⟩

variable [Sram]

theorem msg_acts {l : Label} {s : String} (hs : l.message = some s) (h : Console E u) :
    Acts l u [] [] (E.say u (chars (ascii s))) := by
  have hl := Label.isMessage hs
  have hlow := hl.low
  have hhigh := hl.high
  obtain ⟨hcount, htext⟩ := h.messages l s hs
  have hspan : Span (l.addr + 4) (s.length + 1) :=
    ⟨by rw [show start.toNat = 65536 by decide]; omega, by unfold sram_hi; omega,
      .inl (by rw [show rstack_lo.toNat = 73468 by decide]; omega)⟩
  have hret : (Ip.rom l 1).addr = l.addr + 4 := by
    simp only [Ip.addr, hl.list, Label.MSG_XT]
    rw [BitVec.add_assoc]
    rfl
  have hlen : ((u.mem (l.addr + 4)).setWidth 32 : Cell).toNat = s.length := by
    have := hl.length
    rw [hcount]
    simp
    omega
  have htype := type_acts E (u := u) (a := l.addr + 4 + 1) ((u.mem (l.addr + 4)).setWidth 32) h.ready
    (by rw [hlen]; exact hspan.readable.tail)
    (by
      rw [hlen]
      intro i hi hmem
      refine h.apart _ hmem ⟨?_, ?_⟩ <;>
        rw [BitVec.add_assoc, show (1 : Cell) = BitVec.ofNat 32 1 from rfl, ← BitVec.ofNat_add,
          hspan.add (by omega)] <;> omega)
  rw [hlen, htext] at htype
  refine .of_leads hl.prim fun ip ds rs => ?_
  calc
    Leads ⟨.rom l 0, ds, ip :: rs, u.mem, u.io, none⟩
      ⟨.rom .domsg 0, ds, .rom l 1 :: ip :: rs, u.mem, u.io, none⟩ := by
        refine .single ?_
        simp [Steps, act, hl.list, Label.MSG_XT, token, call, Label.prim?, dolist]
    Leads _ ⟨.rom .domsg 1, (l.addr + 4) :: ds, ip :: rs, u.mem, u.io, none⟩ := by
      rw [← hret]
      exact run_leads (n := 1) rfl
    Leads _ ⟨.rom .domsg 2, (u.mem (l.addr + 4)).setWidth 32 :: (l.addr + 4 + 1) :: ds, ip :: rs,
      u.mem, u.io, none⟩ := (count_does (hspan.readable.head (by omega))).at rfl
    Leads _ ⟨.rom .domsg 3, ds, ip :: rs, _, _, none⟩ := htype.at rfl
    Leads _ _ := run_leads (n := 1) rfl

theorem output_acts {l : Label} {cs : List Cell} (hl : l.output = some cs) (h : Console E u) :
    Acts l u [] [] (E.say u cs) := by
  unfold Label.output at hl
  split at hl
  · cases hl
    exact cr_acts E h.ready
  · cases hl
    exact space_acts E h.ready
  · obtain ⟨s, hs, rfl⟩ := Option.map_eq_some_iff.mp hl
    exact msg_acts hs h

/-- Words that print, one after the other in a list. -/
theorem outputs_lead {w : Label} {k : Nat} (ds : List Cell) (rs : List Ip) (ls : List Label)
    (h : Console E u)
    (hk : (w.list.drop k).take ls.length = ls.map Tok.xt) (hls : ∀ l ∈ ls, l.output.isSome) :
    Leads ⟨.rom w k, ds, rs, u.mem, u.io, none⟩
      ⟨.rom w (k + ls.length), ds, rs, (E.say u (Label.output_list ls)).mem,
        (E.say u (Label.output_list ls)).io, none⟩ := by
  induction ls generalizing k u with
  | nil => exact .refl
  | cons l ls ih =>
    obtain ⟨cs, hcs⟩ := Option.isSome_iff_exists.mp (hls l (List.mem_cons_self ..))
    rw [List.length_cons, List.map_cons] at hk
    obtain ⟨t, ts, ht⟩ : ∃ t ts, w.list.drop k = t :: ts := by
      cases hd : w.list.drop k with
      | nil => rw [hd] at hk; cases hk
      | cons t ts => exact ⟨t, ts, rfl⟩
    rw [ht, List.take_succ_cons, List.cons.injEq] at hk
    have hget : w.list[k]? = some (.xt l) := by
      rw [← hk.1, ← Nat.add_zero k, ← List.getElem?_drop, ht]
      rfl
    have hdrop : w.list.drop (k + 1) = ts := by rw [← List.drop_drop, ht]; rfl
    have hrest := ih (k := k + 1) (h.say cs) (by rw [hdrop]; exact hk.2)
      fun l' hl' => hls l' (List.mem_cons_of_mem _ hl')
    rw [← E.say_append] at hrest
    have hout : Label.output_list (l :: ls) = cs ++ Label.output_list ls := by
      rw [Label.output_list, List.flatMap_cons, hcs]
      rfl
    rw [hout, List.length_cons, ← Nat.add_assoc, Nat.add_right_comm]
    exact ((output_acts hcs h).at hget).trans hrest

end Messages

end Allwinner.Scp
