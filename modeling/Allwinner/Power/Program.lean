import Allwinner.Power.BusWords
import Allwinner.Scp.Printing

/-!
# The program of the power driver

At its start the driver sends definitions to the system-control processor, on top of those of
`app.f`. Its later requests are calls of these words.
-/

namespace Allwinner.Power

open Library Memory
open Scp
open Library.Structured (Prog Sizes)

-- ---------------------------------------------------------------------------
-- The text
-- ---------------------------------------------------------------------------

/-- The request of the constructor of `Main` that defines words. Each line ends with a space. -/
def definition_lines : List String :=
  [": .decimal  base @ decimal swap . base ! ;",
    ": rpwmphase  1f03804 0 10 ;",
    ": pllcpuxn 1c20000 8 4 ;",
    ": power_info",
    "  0  pmic@ .decimal",
    "  1  pmic@ .decimal",
    "  78 pmic@ 10 * 79 pmic@ + .decimal",
    "  7a pmic@ 10 * 7b pmic@ + .decimal",
    "  7c pmic@ 10 * 7d pmic@ + .decimal",
    "  b9 pmic@ 7f and .decimal",
    ";",
    ": clear_pmic_irqs 48 4 FOR dup ff swap pmic! 1 + NEXT drop ;"]

def definitions_text : List Byte := (definition_lines.map ascii).flatMap fun l => l ++ [0x20]

def program : Program :=
  [(ascii ".decimal", line (["base", "@", "decimal", "swap", ".", "base", "!"].map ascii)),
    (ascii "rpwmphase", line (["1f03804", "0", "10"].map ascii)),
    (ascii "pllcpuxn", line (["1c20000", "8", "4"].map ascii)),
    (ascii "power_info", line (["0", "pmic@", ".decimal", "1", "pmic@", ".decimal",
      "78", "pmic@", "10", "*", "79", "pmic@", "+", ".decimal",
      "7a", "pmic@", "10", "*", "7b", "pmic@", "+", ".decimal",
      "7c", "pmic@", "10", "*", "7d", "pmic@", "+", ".decimal",
      "b9", "pmic@", "7f", "and", ".decimal"].map ascii)),
    (ascii "clear_pmic_irqs", line (["48", "4"].map ascii)
      (.forNext (line (["dup", "ff", "swap", "pmic!", "1", "+"].map ascii)) (line (["drop"].map ascii))))]

/-- The words that programs and requests are made of. -/
def needed (bus : Bus) : List (List Byte × Half) :=
  [(ascii "base", Label.base.offset), (ascii "@", Label.«at».offset), (ascii "decimal", Label.decimal.offset),
    (ascii "swap", Label.swap.offset), (ascii ".", Label.dot.offset), (ascii "!", Label.store.offset),
    (ascii "*", Label.mul.offset), (ascii "+", Label.plus.offset), (ascii "and", Label.and.offset),
    (ascii "dup", Label.dup.offset), (ascii "drop", Label.drop.offset), (ascii "or", Label.or.offset),
    (ascii "pmic@", bus.fetch), (ascii "pmic!", bus.store), (ascii "udelay", bus.delay)]

/-- The words can be found. -/
def Firmware (ds : List Dentry) (bus : Bus) : Prop := ∀ x ∈ needed bus, ∃ d, lookup ds x.1 = some d ∧ d.xta = x.2

variable {ds : List Dentry} {bus : Bus} {d : Dentry}

theorem Firmware.cons (h : Firmware ds bus) (hd : d.known ∉ (needed bus).map Prod.fst) :
    Firmware (d :: ds) bus := by
  intro x hx
  obtain ⟨e, he, hxta⟩ := h x hx
  exact ⟨e, (lookup_cons_ne ds fun heq => hd (heq ▸ List.mem_map_of_mem hx)).trans he, hxta⟩

/-- No word is a number in base 16, and none is immediate. -/
theorem needed_words {x : List Byte × Half} (hx : x ∈ needed bus) :
    recognised 16 x.1 = none ∧ x.2.setWidth 32 &&& (1 : Cell) = 0 := by
  constructor
  · have hall : ∀ w ∈ (needed bus).map Prod.fst, recognised 16 w = none := by
      simp only [needed, List.map_cons, List.map_nil]
      decide +kernel
    exact hall _ (List.mem_map_of_mem hx)
  · simp only [needed, List.mem_cons, List.not_mem_nil, or_false] at hx
    obtain rfl | rfl | rfl | rfl | rfl | rfl | rfl | rfl | rfl | rfl | rfl | rfl | rfl | rfl | rfl := hx
    case inr.inr.inr.inr.inr.inr.inr.inr.inr.inr.inr.inr.inl => exact bus.even _
    case inr.inr.inr.inr.inr.inr.inr.inr.inr.inr.inr.inr.inr.inl => exact bus.even _
    case inr.inr.inr.inr.inr.inr.inr.inr.inr.inr.inr.inr.inr.inr => exact bus.even _
    all_goals decide

/-- What the interpreter finds. -/
theorem Firmware.word {t : List Byte} {x : Half} (h : Firmware ds bus) (hx : (t, x) ∈ needed bus) :
    recognised 16 t = none ∧ ∃ d, lookup ds t = some d ∧ d.token = x.setWidth 32 := by
  obtain ⟨d, hd, rfl⟩ := h _ hx
  obtain ⟨hnone, heven⟩ := needed_words hx
  exact ⟨hnone, d, hd, unflagged_eq heven⟩

-- ---------------------------------------------------------------------------
-- The definitions
-- ---------------------------------------------------------------------------

def xts (ls : List Label) : List Atom := ls.map fun l => .xt l.offset

def decimal_body : Body := line (xts [.base, .«at», .decimal, .swap, .dot, .base, .store])

def rpwmphase_body : Body := line [.lit 0x1f03804, .lit 0, .lit 0x10]

def pllcpuxn_body : Body := line [.lit 0x1c20000, .lit 8, .lit 4]

/-- A register of two nibbles more than eight bits. -/
def wide_register (fetch high low : Half) : List Atom :=
  [.lit (high.setWidth 32), .xt fetch, .lit 0x10, .xt Label.mul.offset, .lit (low.setWidth 32), .xt fetch,
    .xt Label.plus.offset]

def power_info_body (fetch decimal : Half) : Body :=
  line ([.lit 0, .xt fetch, .xt decimal, .lit 1, .xt fetch, .xt decimal] ++
    (wide_register fetch 0x78 0x79 ++ [.xt decimal]) ++ (wide_register fetch 0x7a 0x7b ++ [.xt decimal]) ++
    (wide_register fetch 0x7c 0x7d ++ [.xt decimal]) ++
    [.lit 0xb9, .xt fetch, .lit 0x7f, .xt Label.and.offset, .xt decimal])

def clear_pmic_irqs_body (store : Half) : Body :=
  line [.lit 0x48, .lit 4] (.forNext (line [.xt Label.dup.offset, .lit 0xff, .xt Label.swap.offset, .xt store,
    .lit 1, .xt Label.plus.offset]) (line [.xt Label.drop.offset]))

/-- The definitions if the first one is compiled to `c`. -/
def definitions (bus : Bus) (c : Cell) : List Definition :=
  let decimal := entry_from c (ascii ".decimal")
  let c₁ := code_end c (ascii ".decimal") decimal_body
  let c₂ := code_end c₁ (ascii "rpwmphase") rpwmphase_body
  let c₃ := code_end c₂ (ascii "pllcpuxn") pllcpuxn_body
  let c₄ := code_end c₃ (ascii "power_info") (power_info_body bus.fetch decimal.xta)
  [(decimal, decimal_body), (entry_from c₁ (ascii "rpwmphase"), rpwmphase_body),
    (entry_from c₂ (ascii "pllcpuxn"), pllcpuxn_body),
    (entry_from c₃ (ascii "power_info"), power_info_body bus.fetch decimal.xta),
    (entry_from c₄ (ascii "clear_pmic_irqs"), clear_pmic_irqs_body bus.store)]

/-- `.decimal` comes first, and the words of the requests last. -/
theorem definitions_ends (bus : Bus) (c : Cell) : ∃ between c₃ c₄, definitions bus c =
    (entry_from c (ascii ".decimal"), decimal_body) :: (between ++
      [(entry_from c₃ (ascii "power_info"), power_info_body bus.fetch (entry_from c (ascii ".decimal")).xta),
        (entry_from c₄ (ascii "clear_pmic_irqs"), clear_pmic_irqs_body bus.store)]) :=
  ⟨[_, _], _, _, rfl⟩

def numbers : List (List Byte × Nat) :=
  [(ascii "0", 0), (ascii "1", 1), (ascii "4", 4), (ascii "8", 8), (ascii "10", 0x10), (ascii "48", 0x48),
    (ascii "78", 0x78), (ascii "79", 0x79), (ascii "7a", 0x7a), (ascii "7b", 0x7b), (ascii "7c", 0x7c),
    (ascii "7d", 0x7d), (ascii "7f", 0x7f), (ascii "b9", 0xb9), (ascii "ff", 0xff),
    (ascii "1c20000", 0x1c20000), (ascii "1f03804", 0x1f03804)]

/-- The program does not define what it rests on. -/
theorem Firmware.entry (h : Firmware ds bus) (c : Cell) {p : List Byte × Source} (hp : p ∈ program) :
    Firmware (entry_from c p.1 :: ds) bus := by
  have hall : ∀ p ∈ program, p.1.length < 256 ∧ p.1 ∉ (needed bus).map Prod.fst := by
    simp only [needed, List.map_cons, List.map_nil]
    decide +kernel
  obtain ⟨hlength, hnew⟩ := hall p hp
  refine h.cons ?_
  rw [entry_known c hlength]
  exact hnew

end Allwinner.Power
