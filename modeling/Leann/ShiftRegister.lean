import Mathlib.Data.List.Basic
import Mathlib.Logic.Function.Iterate

/-!
# Feedback shift registers

A register of any width takes a bit string, lowest bit first. When its
highest feedback bit is set no step loses information, so two strings that
differ within as many consecutive bits as the register has leave it in
different states, however long they are.
-/

namespace Leann.ShiftRegister

variable {width : ℕ} (feedback : BitVec width)

/-- One step. The lowest bit leaves, and feeds back when it is set. -/
def shift (value : BitVec width) : BitVec width :=
  (value>>>1)^^^(if value.getLsbD 0 then feedback else 0#(width))

/-- A bit at the lowest place. -/
def unit (bit : Bool) : BitVec width := if bit then 1#(width) else 0#(width)

/-- Take a string, one bit a step. -/
def feed (value : BitVec width) (bits : List Bool) : BitVec width :=
  bits.foldl (fun value bit => shift feedback (value^^^unit bit)) value

/-- The bits of a string at the places of a register. -/
def word : List Bool → BitVec width
  | [] => 0#(width)
  | bit::bits => (word bits<<<1)^^^unit bit

theorem feed_append (value : BitVec width) (first second : List Bool) :
    feed feedback value (first++second)=feed feedback (feed feedback value first) second :=
  List.foldl_append

/-- The places of a single bit. -/
theorem unit_getLsbD (bit : Bool) (i : ℕ) :
    (unit bit : BitVec width).getLsbD i=(bit && decide (i=0) && decide (i<width)) := by
  cases bit with
  | false => simp [unit]
  | true =>
    rw [unit,if_pos rfl,BitVec.getLsbD_one]
    by_cases hi : i=0
    · simp [hi]
    · simp [hi]

/-- The places of a string. -/
theorem word_getLsbD (bits : List Bool) (i : ℕ) :
    (word bits : BitVec width).getLsbD i=(bits.getD i false && decide (i<width)) := by
  induction bits generalizing i with
  | nil => simp [word]
  | cons bit bits ih =>
    rw [word,BitVec.getLsbD_xor,BitVec.getLsbD_shiftLeft,unit_getLsbD,ih]
    cases i with
    | zero => simp
    | succ i =>
      by_cases hi : i+1<width
      · simp [hi,show i<width by omega]
      · simp [hi]

/-- A step is linear. -/
theorem shift_xor (first second : BitVec width) :
    shift feedback (first^^^second)=shift feedback first^^^shift feedback second := by
  have hback (a b : Bool) : (if (a ^^ b)=true then feedback else 0#(width))=
      (if a=true then feedback else 0#(width))^^^(if b=true then feedback else 0#(width)) := by
    cases a <;> cases b <;> simp
  rw [shift,shift,shift,BitVec.getLsbD_xor,hback,BitVec.ushiftRight_xor_distrib]
  ac_rfl

/-- So are several steps. -/
theorem iterate_shift_xor (steps : ℕ) (first second : BitVec width) :
    (shift feedback)^[steps] (first^^^second)=
      (shift feedback)^[steps] first^^^(shift feedback)^[steps] second := by
  induction steps generalizing first second with
  | zero => rfl
  | succ steps ih => rw [Function.iterate_succ_apply,shift_xor,ih]; rfl

/-- Where no bit leaves that is set, nothing feeds back. -/
theorem iterate_shift_high (steps : ℕ) {value : BitVec width}
    (h : ∀ i<steps,value.getLsbD i=false) : (shift feedback)^[steps] value=value>>>steps := by
  induction steps with
  | zero => simp
  | succ steps ih =>
    have hlow : (value>>>steps).getLsbD 0=false := by
      rw [BitVec.getLsbD_ushiftRight]
      exact h steps (Nat.lt_succ_self _)
    rw [Function.iterate_succ_apply',ih (fun i hi => h i (Nat.lt_succ_of_lt hi)),shift,hlow,
      if_neg Bool.false_ne_true,BitVec.xor_zero,BitVec.shiftRight_add]

section Lossless

variable {feedback} (h : feedback.getLsbD (width-1)=true)
include h

/-- The bit that left is found at the highest place. -/
theorem shift_injective : Function.Injective (shift feedback) := by
  have hwidth : 0<width := by
    by_contra hzero
    rw [BitVec.getLsbD_of_ge _ _ (by omega)] at h
    cases h
  have hlast (value : BitVec width) :
      (shift feedback value).getLsbD (width-1)=value.getLsbD 0 := by
    rw [shift,BitVec.getLsbD_xor,BitVec.getLsbD_ushiftRight,BitVec.getLsbD_of_ge value _ (by omega)]
    cases value.getLsbD 0 with
    | false => simp
    | true => simpa using h
  intro first second heq
  have hbit : first.getLsbD 0=second.getLsbD 0 := by rw [←hlast first,heq,hlast]
  have hrest : first>>>1=second>>>1 := by
    rw [shift,shift,hbit] at heq
    exact BitVec.xor_left_inj _ |>.mp heq
  apply BitVec.eq_of_getLsbD_eq
  intro i _
  cases i with
  | zero => exact hbit
  | succ i =>
    have hi := congrArg (fun value => value.getLsbD i) hrest
    simpa only [BitVec.getLsbD_ushiftRight,Nat.add_comm 1 i] using hi

/-- Taking a string loses nothing of the state before. -/
theorem feed_injective (bits : List Bool) :
    Function.Injective (fun value => feed feedback value bits) := by
  induction bits with
  | nil => exact fun _ _ heq => heq
  | cons bit bits ih =>
    intro first second heq
    have hstep : shift feedback (first^^^unit bit)=shift feedback (second^^^unit bit) := ih heq
    exact (BitVec.xor_left_inj _).mp (shift_injective h hstep)

end Lossless

/-- A string no longer than the register enters it as a whole, since its bits
reach the lowest place before they feed back. -/
theorem feed_short (value : BitVec width) (bits : List Bool) (hl : bits.length≤width) :
    feed feedback value bits=(shift feedback)^[bits.length] (value^^^word bits) := by
  induction bits generalizing value with
  | nil => simp [feed,word]
  | cons bit bits ih =>
    rw [List.length_cons] at hl
    have hshift : shift feedback (word bits<<<1)=word bits := by
      have hlow : ((word bits : BitVec width)<<<1).getLsbD 0=false := by simp
      rw [shift,hlow,if_neg Bool.false_ne_true,BitVec.xor_zero]
      apply BitVec.eq_of_getLsbD_eq
      intro i hi
      rw [BitVec.getLsbD_ushiftRight,BitVec.getLsbD_shiftLeft,word_getLsbD,word_getLsbD]
      by_cases hlast : 1+i<width
      · simp [hlast,hi]
      · have hbeyond : bits.length≤ i := by omega
        simp [hlast,List.getElem?_eq_none hbeyond]
    have hstep : feed feedback value (bit::bits)=
        feed feedback (shift feedback (value^^^unit bit)) bits := rfl
    have hword : value^^^word (bit::bits)=value^^^unit bit^^^(word bits<<<1) := by
      rw [word,BitVec.xor_assoc,BitVec.xor_comm (unit bit)]
    rw [hstep,ih _ (by omega),hword,List.length_cons,Function.iterate_succ_apply,
      shift_xor feedback (value^^^unit bit),hshift]

/-- A string that fits is determined by its places. -/
theorem word_injective {first second : List Bool} (hlength : first.length=second.length)
    (hl : first.length≤width) (heq : (word first : BitVec width)=word second) : first=second := by
  apply List.ext_getElem hlength
  intro i hf hs
  have hi := congrArg (fun value => value.getLsbD i) heq
  simp only [word_getLsbD,show i<width by omega,decide_true,Bool.and_true] at hi
  rwa [List.getD_eq_getElem?_getD,List.getD_eq_getElem?_getD,List.getElem?_eq_getElem hf,
    List.getElem?_eq_getElem hs] at hi

/-- Strings that differ, and only within as many consecutive bits as the
register has, leave it in different states. -/
theorem feed_ne (h : feedback.getLsbD (width-1)=true) (value : BitVec width)
    {first second : List Bool} (hlength : first.length=second.length) (start : ℕ)
    (hwindow : ∀ i,i<start ∨ start+width≤ i → first[i]?=second[i]?) (hne : first≠second) :
    feed feedback value first≠feed feedback value second := by
  have hbefore : first.take start=second.take start := by
    apply List.ext_getElem?
    intro i
    rw [List.getElem?_take,List.getElem?_take]
    split
    · exact hwindow i (.inl ‹_›)
    · rfl
  have hafter : first.drop (start+width)=second.drop (start+width) := by
    apply List.ext_getElem?
    intro i
    rw [List.getElem?_drop,List.getElem?_drop]
    exact hwindow _ (.inr (Nat.le_add_right _ _))
  have hsplit (bits : List Bool) :
      bits=bits.take start++((bits.drop start).take width++bits.drop (start+width)) := by
    rw [←List.drop_drop,List.take_append_drop,List.take_append_drop]
  have hmiddle : (first.drop start).take width≠(second.drop start).take width := by
    intro heq
    exact hne (by rw [hsplit first,hsplit second,hbefore,heq,hafter])
  have hsame : ((first.drop start).take width).length=((second.drop start).take width).length := by
    simp only [List.length_take,List.length_drop,hlength]
  have hshort : ((first.drop start).take width).length≤width := by
    rw [List.length_take]
    exact Nat.min_le_left _ _
  rw [hsplit first,hsplit second,hbefore,hafter]
  simp only [feed_append]
  intro heq
  have hfed := feed_injective h _ heq
  generalize feed feedback value (second.take start)=state at hfed
  rw [feed_short _ _ _ hshort,feed_short _ state _ (hsame ▸ hshort),←hsame] at hfed
  have hwords := (BitVec.xor_right_inj _).mp ((shift_injective h).iterate _ hfed)
  exact hmiddle (word_injective hsame hshort hwords)

end Leann.ShiftRegister
