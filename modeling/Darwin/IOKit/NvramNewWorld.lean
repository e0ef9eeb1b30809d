import Darwin.IOKit.NvramVariables
import Mathlib.Data.List.TakeWhile

/-! What `initOFVariables` reads from an image of texts that `syncOFVariables` has written. -/
open List Option
namespace Darwin.IOKit.Nvram

def PlainName (name : List UInt8) : Prop := 0∉name ∧ 61∉name

def PlainValue : OSObject → Prop
  | .number value => FitsLong value
  | .string text => 0∉text
  | .data bytes => ¬HasLongRun bytes
  | _ => True

lemma takeWhile_escaped (bytes : List UInt8) :
    (escapeText bytes++[0]).takeWhile (·≠0)=escapeText bytes := by
  rw [takeWhile_append_of_pos]
  · simp
  · intro c hc
    exact decide_eq_true fun heq => zero_notMem_escapeText bytes (heq▸hc)

variable {object : OSObject} {propDataLength : ℕ}

lemma zero_notMem_propText {propType : OFVariableType} {text : List UInt8}
    (h : propText propType object=some (text,propDataLength))
    (hvalue : PlainValue object) : 0∉text := by
  unfold propText at h
  split at h
  · cases h
    split_ifs <;> decide
  · cases h
    exact zero_notMem_numberText _
  · cases h
    exact hvalue
  · rw [map_eq_some_iff] at h
    obtain ⟨escaped,hescaped,heq⟩ := h
    cases heq
    rw [escapeDataToData_eq_some hescaped,takeWhile_escaped]
    exact zero_notMem_escapeText _
  · cases h

lemma convertPropToObject_propText {name text : List UInt8}
    (hname : PlainName name)
    (h : propText (getOFVariableType name) object=some (text,propDataLength))
    (hvalue : PlainValue object) : convertPropToObject name text=some (name,object) := by
  have hsymbol : name.takeWhile (·≠0)=name :=
    takeWhile_eq_self_iff.mpr fun c hc => decide_eq_true fun heq => hname.1 (heq▸hc)
  unfold convertPropToObject
  simp only [hsymbol]
  unfold propText at h
  split at h
  · rename_i value htype
    cases h
    rw [htype]
    cases value with
    | false =>
      exact congrArg (Option.map fun object => (name,object))
        (by decide : (if falseText <+: trueText then some (OSObject.boolean true)
          else if falseText <+: falseText then some (.boolean false) else none) =
            some (.boolean false))
    | true =>
      exact congrArg (Option.map fun object => (name,object))
        (by decide : (if trueText <+: trueText then some (OSObject.boolean true)
          else if trueText <+: falseText then some (.boolean false) else none) =
            some (.boolean true))
  · rename_i value htype
    cases h
    rw [htype]
    simp only [map_some,withNumber32_strtol hvalue]
  · rename_i value htype
    cases h
    rw [htype]
    rfl
  · rename_i bytes htype
    rw [map_eq_some_iff] at h
    obtain ⟨escaped,hescaped,heq⟩ := h
    cases heq
    rw [escapeDataToData_eq_some hescaped,takeWhile_escaped,htype]
    have hread := unescapeBytesToData_escapeText (fun _ => true) bytes
      (holds_getD (escapeText bytes))
    rw [(readBack_eq_iff bytes).mpr hvalue] at hread
    simp only [hread]
    rfl
  · cases h

lemma initLoop_entry {name text rest : List UInt8} (dict : OSDictionary)
    (hname : PlainName name) (htext : 0∉text)
    (hconvert : convertPropToObject name text=some (name,object)) :
    initLoop dict (name++61::text++[0]++rest) =
      initLoop (OSDictionary.setObject dict name object) rest := by
  have hlist : name++61::text++[0]++rest=name++61::(text++0::rest) := by
    simp only [append_assoc,cons_append,nil_append]
  have htakeName : (name++61::(text++0::rest)).takeWhile (·≠61)=name := by
    have hall : ∀ c∈name,decide (c≠61)=true := fun c hc =>
      decide_eq_true fun heq => hname.2 (heq▸hc)
    rw [takeWhile_append_of_pos hall]
    simp
  have htakeText : (text++0::rest).takeWhile (·≠0)=text := by
    have hall : ∀ c∈text,decide (c≠0)=true := fun c hc =>
      decide_eq_true fun heq => htext (heq▸hc)
    rw [takeWhile_append_of_pos hall]
    simp
  have hdropName : (name++61::(text++0::rest)).drop (name.length+1)=text++0::rest := by
    rw [append_cons,drop_left' (by simp)]
  have hdropText : (text++0::rest).drop (text.length+1)=rest := by
    rw [append_cons,drop_left' (by simp)]
  have hlength : name.length≠(name++61::(text++0::rest)).length := by
    rw [length_append,length_cons]
    omega
  have hlengthText : text.length≠(text++0::rest).length := by
    rw [length_append,length_cons]
    omega
  rw [hlist]
  generalize himage : name++61::(text++0::rest)=image at *
  cases image with
  | nil => simp at himage
  | cons c image =>
    have hc : c≠0 := by
      cases name with
      | nil =>
        rw [←(List.cons.inj himage).1]
        decide
      | cons d name =>
        rw [←(List.cons.inj himage).1]
        exact fun heq => hname.1 (heq▸mem_cons_self)
    rw [initLoop]
    simp only [htakeName,hdropName,htakeText,hdropText,if_neg hc,if_neg hlength,
      if_neg hlengthText,hconvert]

lemma initLoop_zeroes (dict : OSDictionary) (n : ℕ) : initLoop dict (replicate n 0)=dict := by
  cases n with
  | zero => rw [replicate_zero,initLoop]
  | succ n => rw [replicate_succ,initLoop,if_pos rfl]

lemma length_propText_le {propType : OFVariableType} {text : List UInt8}
    (h : propText propType object=some (text,propDataLength)) : text.length≤propDataLength := by
  unfold propText at h
  split at h
  · cases h
    split_ifs <;> decide
  · cases h
    exact length_numberText_le _
  · cases h
    exact le_rfl
  · rw [map_eq_some_iff] at h
    obtain ⟨escaped,-,heq⟩ := h
    cases heq
    exact ( takeWhile_prefix _).length_le
  · cases h

lemma convertObjectToProp_some {length : ℕ} {name bytes : List UInt8}
    (h : convertObjectToProp length name object=some bytes) : ∃ text propDataLength,
      propText (getOFVariableType name) object=some (text,propDataLength) ∧
      bytes=name++61::text++[0] ∧ bytes.length≤length := by
  unfold convertObjectToProp at h
  split at h
  · cases h
  · rename_i text propDataLength htext
    split_ifs at h with hroom
    cases h
    have hle := length_propText_le htext
    refine ⟨text,propDataLength,htext,rfl,?_⟩
    simp only [length_append,length_cons,length_nil]
    omega

def Plain (dict : OSDictionary) (keys : List (List UInt8)) : Prop :=
  ∀ name∈keys,PlainName name ∧ ∀ object,dict name=some object → PlainValue object

lemma initLoop_syncLoop (dict : OSDictionary) (keys : List (List UInt8)) :
    ∀ {maxLength : ℕ} {written image : List UInt8},Plain dict keys →
    syncLoop dict keys maxLength written=some image →
    ∃ bytes,image=written++bytes ∧ bytes.length ≤ maxLength ∧
      ∀ (read : OSDictionary) (rest : List UInt8),∃ read' : OSDictionary,
        initLoop read (bytes++rest)=initLoop read' rest ∧
        ∀ name,read' name=if name∈keys then dict name else read name := by
  induction keys with
  | nil =>
    intro maxLength written image _ h
    cases h
    refine ⟨[],(append_nil _).symm,Nat.zero_le _,fun read rest => ⟨read,rfl,fun name => ?_⟩⟩
    rw [if_neg not_mem_nil]
  | cons key keys ih =>
    intro maxLength written image hplain h
    obtain ⟨hkey,hobjects⟩ := hplain key mem_cons_self
    rw [syncLoop] at h
    split at h
    · cases h
    · rename_i object hobject
      split at h
      · cases h
      · rename_i entry hentry
        obtain ⟨text,propDataLength,htext,rfl,hroom⟩ := convertObjectToProp_some hentry
        have hvalue := hobjects object hobject
        obtain ⟨bytes,rfl,hlength,hread⟩ :=
          ih (fun name hname => hplain name (mem_cons_of_mem _ hname)) h
        refine ⟨key++61::text++[0]++bytes,?_,?_,fun read rest => ?_⟩
        · rw [append_assoc]
        · rw [length_append]
          omega
        · obtain ⟨read',hinit,hlookup⟩ := hread (OSDictionary.setObject read key object) rest
          refine ⟨read',?_,fun name => ?_⟩
          · rw [append_assoc,initLoop_entry read hkey (zero_notMem_propText htext hvalue)
              (convertPropToObject_propText hkey htext hvalue),hinit]
          · rw [hlookup name,OSDictionary.setObject]
            by_cases hname : name=key
            · rw [hname,Function.update_self,if_pos mem_cons_self,hobject]
              split_ifs <;> rfl
            · rw [Function.update_of_ne hname]
              simp only [mem_cons,hname,false_or]

lemma newWorldVariables_newWorldBuffer {ofPartitionSize : ℕ} {dict : OSDictionary}
    {keys : List (List UInt8)} {image : List UInt8} (hplain : Plain dict keys)
    (hkeys : ∀ name,name∈keys ↔ dict name≠none)
    (h : newWorldBuffer ofPartitionSize dict keys=some image) : image.length=ofPartitionSize ∧
      newWorldVariables image =
        if dict bootArgs=none then OSDictionary.setObject dict bootArgs (.string [])
        else dict := by
  rw [newWorldBuffer,map_eq_some_iff] at h
  obtain ⟨written,hsync,rfl⟩ := h
  obtain ⟨bytes,hbytes,hlength,hread⟩ := initLoop_syncLoop dict keys hplain hsync
  rw [nil_append] at hbytes
  subst hbytes
  refine ⟨?_,?_⟩
  · rw [length_append,length_replicate]
    omega
  · obtain ⟨read,hinit,hlookup⟩ :=
      hread (fun _ => none) (replicate (ofPartitionSize-written.length) 0)
    have hdict : read=dict := by
      funext name
      rw [hlookup name]
      split_ifs with hname
      · rfl
      · rw [hkeys,not_not] at hname
        exact hname.symm
    rw [newWorldVariables,hinit,initLoop_zeroes,hdict]

end Darwin.IOKit.Nvram
