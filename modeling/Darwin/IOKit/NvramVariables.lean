import Darwin.IOKit.NvramEscape

/-! The Open Firmware variables of `iokit/Kernel/IONVRAM.cpp`: their table, and the `name=value`
image of the machines that start from a boot ROM. Texts are lists of bytes without their
terminator, and there is memory for every object. -/
open List Function Nat
namespace Darwin.IOKit.Nvram

def ascii (text : String) : List UInt8 := text.toList.map fun c => UInt8.ofNat c.toNat

inductive OFVariableType
  | boolean | number | string | data
  deriving DecidableEq

structure OFVariable where
  variableName : List UInt8
  variableType : OFVariableType
  variableOffset : ℤ

def gOFVariables : List OFVariable :=
  [⟨ascii "little-endian?",.boolean,0⟩,⟨ascii "real-mode?",.boolean,1⟩,
   ⟨ascii "auto-boot?",.boolean,2⟩,⟨ascii "diag-switch?",.boolean,3⟩,
   ⟨ascii "fcode-debug?",.boolean,4⟩,⟨ascii "oem-banner?",.boolean,5⟩,
   ⟨ascii "oem-logo?",.boolean,6⟩,⟨ascii "use-nvramrc?",.boolean,7⟩,
   ⟨ascii "use-generic?",.boolean,-1⟩,⟨ascii "default-mac-address?",.boolean,-1⟩,
   ⟨ascii "real-base",.number,8⟩,⟨ascii "real-size",.number,9⟩,⟨ascii "virt-base",.number,10⟩,
   ⟨ascii "virt-size",.number,11⟩,⟨ascii "load-base",.number,12⟩,
   ⟨ascii "pci-probe-list",.number,13⟩,⟨ascii "pci-probe-mask",.number,-1⟩,
   ⟨ascii "screen-#columns",.number,14⟩,⟨ascii "screen-#rows",.number,15⟩,
   ⟨ascii "selftest-#megs",.number,16⟩,⟨ascii "boot-device",.string,17⟩,
   ⟨ascii "boot-file",.string,18⟩,⟨ascii "boot-screen",.string,-1⟩,
   ⟨ascii "console-screen",.string,-1⟩,⟨ascii "diag-device",.string,19⟩,
   ⟨ascii "diag-file",.string,20⟩,⟨ascii "input-device",.string,21⟩,
   ⟨ascii "output-device",.string,22⟩,⟨ascii "input-device-1",.string,-1⟩,
   ⟨ascii "output-device-1",.string,-1⟩,⟨ascii "mouse-device",.string,-1⟩,
   ⟨ascii "oem-banner",.string,23⟩,⟨ascii "oem-logo",.string,24⟩,⟨ascii "nvramrc",.string,25⟩,
   ⟨ascii "boot-command",.string,26⟩,⟨ascii "default-client-ip",.string,-1⟩,
   ⟨ascii "default-server-ip",.string,-1⟩,⟨ascii "default-gateway-ip",.string,-1⟩,
   ⟨ascii "default-subnet-mask",.string,-1⟩,⟨ascii "default-router-ip",.string,-1⟩,
   ⟨ascii "boot-script",.string,-1⟩,⟨ascii "boot-args",.string,-1⟩,⟨ascii "aapl,pci",.data,-1⟩,
   ⟨ascii "security-mode",.string,-1⟩,⟨ascii "security-password",.data,-1⟩]

/-- The last entry of the table, which has no name, stands for all other names. -/
def getOFVariableType (propSymbol : List UInt8) : OFVariableType :=
  ((gOFVariables.find? fun ofVar => ofVar.variableName=propSymbol).map
    OFVariable.variableType).getD .data

inductive OSObject
  | boolean (value : Bool)
  | number (value : BitVec 64)
  | string (text : List UInt8)
  | data (bytes : List UInt8)
  | other
  deriving DecidableEq

abbrev OSDictionary := List UInt8 → Option OSObject

def OSDictionary.setObject (dict : OSDictionary) (key : List UInt8) (object : OSObject) :
    OSDictionary :=
  update dict key (some object)

def OSDictionary.removeObject (dict : OSDictionary) (key : List UInt8) : OSDictionary :=
  update dict key none

/-! ### Numbers as text -/

def digitByte (digit : ℕ) : UInt8 := UInt8.ofNat (if digit<10 then 48+digit else 87+digit)

def printed (base value : ℕ) : List UInt8 :=
  if value=0 then [48] else (Nat.digits base value).reverse.map digitByte

def isspace (c : UInt8) : Bool := c=32 ∨ c=9 ∨ c=10

def digitValue (c : UInt8) : Option ℕ :=
  if 48≤c ∧ c≤57 then some (c.toNat-48)
  else if 65≤c ∧ c≤90 then some (c.toNat-55)
  else if 97≤c ∧ c≤122 then some (c.toNat-87)
  else none

def longMax : ℕ := 2^31-1

def strtolLoop (base limit : ℕ) (acc : Option ℕ) : List UInt8 → Option ℕ
  | [] => acc
  | c::s =>
    match digitValue c with
    | none => acc
    | some digit =>
      if base≤digit then acc
      else
        match acc with
        | none => strtolLoop base limit none s
        | some value =>
          if limit/base<value ∨ value=limit/base ∧ limit%base<digit then
            strtolLoop base limit none s
          else strtolLoop base limit (some (value*base+digit)) s

def strtolBase : List UInt8 → ℕ × List UInt8
  | 48::c::s =>
    if c=120 ∨ c=88 then (16,s) else if c=98 ∨ c=66 then (2,s) else (8,48::c::s)
  | 48::s => (8,48::s)
  | s => (10,s)

def strtol (s : List UInt8) : ℤ :=
  let s := s.dropWhile isspace
  let neg : Bool := s.head?=some 45
  let s := if s.head?=some 45 ∨ s.head?=some 43 then s.tail else s
  let limit := if neg then longMax+1 else longMax
  let acc := (strtolLoop (strtolBase s).1 limit (some 0) (strtolBase s).2).getD limit
  if neg then -acc else acc

def withNumber32 (value : ℤ) : BitVec 64 := BitVec.ofInt 64 value&&&0xFFFFFFFF

/-! ### One variable -/

def trueText : List UInt8 := ascii "true"
def falseText : List UInt8 := ascii "false"

def numberText (tmpValue : BitVec 32) : List UInt8 :=
  if tmpValue=0xFFFFFFFF then ascii "-1"
  else if tmpValue.toNat<1000 then printed 10 tmpValue.toNat
  else ascii "0x" ++ printed 16 tmpValue.toNat

def propText (propType : OFVariableType) (propObject : OSObject) : Option (List UInt8 × ℕ) :=
  match propType,propObject with
  | .boolean,.boolean value => some (if value then trueText else falseText,5)
  | .number,.number value => some (numberText (value.truncate 32),10)
  | .string,.string text => some (text,text.length)
  | .data,.data bytes =>
    (escapeDataToData (fun _ => true) (fun _ => true) bytes).map fun escaped =>
      (escaped.takeWhile (·≠0),escaped.length)
  | _,_ => none

def convertObjectToProp (length : ℕ) (propSymbol : List UInt8) (propObject : OSObject) :
    Option (List UInt8) :=
  match propText (getOFVariableType propSymbol) propObject with
  | none => none
  | some (text,propDataLength) =>
    if length<propSymbol.length+propDataLength+2 then none
    else some (propSymbol++61::text++[0])

/-- `propData` is a text that its terminator ends; what lies behind is `0` here. -/
def convertPropToObject (propName propData : List UInt8) : Option (List UInt8 × OSObject) :=
  let tmpSymbol := propName.takeWhile (·≠0)
  let tmpObject : Option OSObject :=
    match getOFVariableType tmpSymbol with
    | .boolean =>
      if propData <+: trueText then some (.boolean true)
      else if propData <+: falseText then some (.boolean false)
      else none
    | .number => some (.number (withNumber32 (strtol propData)))
    | .string => some (.string propData)
    | .data =>
      (unescapeBytesToData (fun _ => true) (fun i => propData.getD i 0) propData.length).map
        fun r => .data r.1
  tmpObject.map fun object => (tmpSymbol,object)

/-! ### The image of `name=value` texts -/

/-- The loop of `syncOFVariables` over the keys in the iterator's order: what it has written, unless
`ok` is false at the end. -/
def syncLoop (dict : OSDictionary) : List (List UInt8) → ℕ → List UInt8 → Option (List UInt8)
  | [],_,written => some written
  | tmpSymbol::keys,maxLength,written =>
    match dict tmpSymbol with
    | none => none
    | some tmpObject =>
      match convertObjectToProp maxLength tmpSymbol tmpObject with
      | none => none
      | some bytes => syncLoop dict keys (maxLength-bytes.length) (written++bytes)

def newWorldBuffer (ofPartitionSize : ℕ) (dict : OSDictionary) (keys : List (List UInt8)) :
    Option (List UInt8) :=
  (syncLoop dict keys ofPartitionSize []).map fun written =>
    written++replicate (ofPartitionSize-written.length) 0

def initLoop (dict : OSDictionary) : List UInt8 → OSDictionary
  | [] => dict
  | c::rest =>
    let propName := (c::rest).takeWhile (·≠61)
    let behindName := (c::rest).drop (propName.length+1)
    let propData := behindName.takeWhile (·≠0)
    let behindData := behindName.drop (propData.length+1)
    if c=0 then dict
    else if propName.length=(c::rest).length then dict
    else if propData.length=behindName.length then dict
    else
      match convertPropToObject propName propData with
      | none => initLoop dict behindData
      | some (propSymbol,propObject) =>
        initLoop (OSDictionary.setObject dict propSymbol propObject) behindData
termination_by image => image.length
decreasing_by all_goals simp

def bootArgs : List UInt8 := ascii "boot-args"

def newWorldVariables (ofImage : List UInt8) : OSDictionary :=
  let dict := initLoop (fun _ => none) ofImage
  if dict bootArgs=none then OSDictionary.setObject dict bootArgs (.string []) else dict

end Darwin.IOKit.Nvram

/-! Numbers as the text that they are written as. -/
namespace Darwin.IOKit.Nvram

lemma digitValue_digitByte {digit : ℕ} (h : digit<36) :
    digitValue (digitByte digit)=some digit := by
  have hall : ∀ d : Fin 36,digitValue (digitByte d.val)=some d.val := by decide
  exact hall ⟨digit,h⟩

def valueFrom (base : ℕ) : ℕ → List ℕ → ℕ
  | acc,[] => acc
  | acc,digit::digits => valueFrom base (acc*base+digit) digits

lemma le_valueFrom {base : ℕ} (hbase : 0<base) (digits : List ℕ) (acc : ℕ) :
    acc≤valueFrom base acc digits := by
  induction digits generalizing acc with
  | nil => exact le_rfl
  | cons digit digits ih =>
    calc acc≤acc*base := Nat.le_mul_of_pos_right acc hbase
      _≤acc*base+digit := le_add_right _ _
      _≤_ := ih _

lemma strtolLoop_digits {base limit : ℕ} (hbase : 0<base) (hle : base≤36) (digits : List ℕ)
    (acc : ℕ) (hdigits : ∀ d∈digits,d<base) (hlimit : valueFrom base acc digits≤limit) :
    strtolLoop base limit (some acc) (digits.map digitByte)=some (valueFrom base acc digits) := by
  induction digits generalizing acc with
  | nil => rfl
  | cons digit digits ih =>
    have hdigit := hdigits digit mem_cons_self
    have hnext : acc*base+digit≤limit := (le_valueFrom hbase digits _).trans hlimit
    have hfits : ¬(limit/base<acc ∨ acc=limit/base ∧ limit%base<digit) := by
      have hacc : acc≤limit/base := (le_div_iff_mul_le hbase).mpr (by omega)
      rintro (hlt | ⟨heq,hlt⟩)
      · omega
      · have hsplit := div_add_mod limit base
        rw [←heq,mul_comm] at hsplit
        omega
    rw [map_cons,strtolLoop,digitValue_digitByte (hdigit.trans_le hle)]
    simp only [if_neg (not_le.mpr hdigit),if_neg hfits]
    exact ih _ (fun d hd => hdigits d (mem_cons_of_mem _ hd)) hlimit

lemma valueFrom_reverse_digits {base : ℕ} (value : ℕ) :
    valueFrom base 0 (Nat.digits base value).reverse=value := by
  have hfold : ∀ (digits : List ℕ) (acc : ℕ),
      valueFrom base acc digits=digits.foldl (fun acc digit => acc*base+digit) acc := by
    intro digits
    induction digits with
    | nil => exact fun _ => rfl
    | cons digit digits ih => exact fun acc => ih _
  rw [hfold,foldl_reverse]
  conv_rhs => rw [←ofDigits_digits base value,ofDigits_eq_foldr]
  congr 1
  funext digit acc
  rw [cast_id,mul_comm,add_comm]

lemma strtolLoop_printed {base limit value : ℕ} (hbase : 1<base) (hle : base≤36)
    (hvalue : value≠0) (hlimit : value≤limit) :
    strtolLoop base limit (some 0) (printed base value)=some value := by
  have hloop := strtolLoop_digits (by omega) hle (Nat.digits base value).reverse 0
    (fun d hd => digits_lt_base hbase (mem_reverse.mp hd))
    ((valueFrom_reverse_digits value).trans_le hlimit)
  rw [printed,if_neg hvalue,hloop,valueFrom_reverse_digits]

lemma printed_eq_cons {base value : ℕ} (hbase : 1<base) (hvalue : value≠0) :
    ∃ digit rest,printed base value=digitByte digit::rest ∧ 0<digit ∧ digit<base := by
  have hne : Nat.digits base value≠[] := digits_ne_nil_iff_ne_zero.mpr hvalue
  refine ⟨(Nat.digits base value).getLast hne,
    ((Nat.digits base value).dropLast.reverse).map digitByte,?_,
    pos_of_ne_zero (getLast_digit_ne_zero base hvalue),digits_lt_base hbase (getLast_mem hne)⟩
  rw [printed,if_neg hvalue]
  conv_lhs => rw [←dropLast_append_getLast hne]
  rw [reverse_append,map_append]
  rfl

lemma strtol_decimal {value : ℕ} (hvalue : value<1000) : strtol (printed 10 value)=value := by
  by_cases hzero : value=0
  · rw [hzero]
    decide
  · obtain ⟨digit,rest,hprinted,hpos,hlt⟩ := printed_eq_cons (by decide : 1<10) hzero
    have hhead : ∀ d : Fin 10,0<d.val → isspace (digitByte d.val)=false ∧
        digitByte d.val≠45 ∧ digitByte d.val≠43 ∧ digitByte d.val≠48 := by decide
    obtain ⟨hspace,hminus,hplus,hoctal⟩ := hhead ⟨digit,hlt⟩ hpos
    have hbase : strtolBase (digitByte digit::rest)=(10,digitByte digit::rest) := by
      unfold strtolBase
      split
      · rename_i heq
        exact absurd (List.cons.inj heq).1 hoctal
      · rename_i heq
        exact absurd (List.cons.inj heq).1 hoctal
      · rfl
    have hloop := strtolLoop_printed (by decide : 1<10) (by decide) hzero
      (by unfold longMax; omega : value≤longMax)
    rw [hprinted] at hloop ⊢
    simp only [strtol]
    rw [dropWhile_cons_of_neg (by simp [hspace])]
    simp [hminus,hplus,hbase,hloop]

lemma strtol_hex {value : ℕ} (hpos : value≠0) (hvalue : value≤longMax) :
    strtol (ascii "0x" ++ printed 16 value)=value := by
  have hloop := strtolLoop_printed (by decide : 1<16) (by decide) hpos hvalue
  have hascii : ascii "0x" = [48,120] := by decide
  rw [hascii]
  simp [strtol,strtolBase,isspace,hloop]

lemma digitByte_ne_zero {digit : ℕ} (h : digit<36) : digitByte digit≠0 := by
  have hall : ∀ d : Fin 36,digitByte d.val≠0 := by decide
  exact hall ⟨digit,h⟩

lemma zero_notMem_printed {base : ℕ} (hbase : 1<base) (hle : base≤36) (value : ℕ) :
    0∉printed base value := by
  intro hmem
  unfold printed at hmem
  split_ifs at hmem with hzero
  · exact absurd hmem (by decide)
  · obtain ⟨digit,hdigit,heq⟩ := mem_map.mp hmem
    exact digitByte_ne_zero
      ((digits_lt_base hbase (mem_reverse.mp hdigit)).trans_le hle) heq

lemma zero_notMem_numberText (value : BitVec 32) : 0∉numberText value := by
  unfold numberText
  split_ifs
  · decide
  · exact zero_notMem_printed (by decide) (by decide) _
  · intro hmem
    rcases mem_append.mp hmem with hmem | hmem
    · exact absurd hmem (by decide)
    · exact zero_notMem_printed (by decide) (by decide) _ hmem

lemma length_printed_le {base value k : ℕ} (hbase : 1<base) (hk : 0<k)
    (hvalue : value<base^k) : (printed base value).length≤k := by
  unfold printed
  split_ifs
  · exact hk
  · rw [length_map,length_reverse]
    exact (digits_length_le_iff hbase value).mpr hvalue

lemma length_numberText_le (value : BitVec 32) : (numberText value).length≤10 := by
  unfold numberText
  split_ifs with hones hsmall
  · decide
  · exact (length_printed_le (by decide) (by decide : 0<3) hsmall).trans (by decide)
  · rw [length_append]
    have hhex := length_printed_le (by decide : 1<16) (by decide : 0<8) value.isLt
    have htwo : (ascii "0x").length=2 := by decide
    omega

/-- Numbers that a `long` holds, and the largest one, which is written as `-1`. -/
def FitsLong (value : BitVec 64) : Prop := value.toNat≤longMax ∨ value=0xFFFFFFFF

lemma withNumber32_ofNat {value : BitVec 64} (h : value.toNat<2^32) :
    withNumber32 (value.toNat : ℤ)=value := by
  unfold withNumber32
  rw [BitVec.ofInt_natCast,BitVec.ofNat_toNat,BitVec.setWidth_eq]
  apply BitVec.eq_of_toNat_eq
  rw [BitVec.toNat_and]
  change value.toNat&&&(2^32-1)=value.toNat
  rw [and_two_pow_sub_one_eq_mod,mod_eq_of_lt h]

lemma withNumber32_strtol {value : BitVec 64} (h : FitsLong value) :
    withNumber32 (strtol (numberText (value.truncate 32)))=value := by
  rcases h with h | rfl
  · have hlt : value.toNat<2^32-1 := by
      unfold longMax at h
      omega
    have htruncate : (value.truncate 32).toNat=value.toNat := by
      rw [BitVec.truncate_eq_setWidth,BitVec.toNat_setWidth,mod_eq_of_lt (by omega)]
    have hne : value.truncate 32≠0xFFFFFFFF := fun heq => by
      rw [heq] at htruncate
      change 2^32-1=value.toNat at htruncate
      omega
    rw [numberText,if_neg hne,htruncate]
    split_ifs with hsmall
    · rw [strtol_decimal hsmall,withNumber32_ofNat (by omega)]
    · rw [strtol_hex (by omega) h,withNumber32_ofNat (by omega)]
  · decide

end Darwin.IOKit.Nvram
