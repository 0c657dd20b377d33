import AutoRefirst.ByteText

/-!
# Headers of portable executables

The part of the parser that reads the headers and the section table. The data directories
are parsed after it and cannot make a valid image invalid.
-/

namespace AutoRefirst

def littleEndian : Bytes → ℕ
  | [] => 0
  | b::l => b.toNat + 256 * littleEndian l

theorem littleEndian_lt (b:Bytes) : littleEndian b<256^b.length:=by
  induction b with
  | nil=>exact Nat.one_pos
  | cons x b ih=>
    have hx : x.toNat<256:=x.toNat_lt
    rw [littleEndian,List.length_cons,Nat.pow_succ]
    omega

def rd (w : ℕ) (d : Bytes) (o : ℕ) : Option ℕ :=
  if o+w > d.length then none else some (littleEndian ((d.drop o).take w))

structure PeSection where
  (rva vsize rawOffset rawSize characteristics : ℕ := 0)

structure PeInfo where
  (valid pe64 dll : Bool := false)
  (machine subsystem coffCharacteristics entryRva imageSize headersSize imageBase overlayOffset
    overlaySize : ℕ := 0)
  sections : List PeSection := []
  error : String := ""

def peSignature : Bytes := bytes "PE"++[0,0]

def peSection (d : Bytes) (o : ℕ) : PeSection where
  vsize := (rd 4 d (o+8)).getD 0
  rva := (rd 4 d (o+12)).getD 0
  rawSize := (rd 4 d (o+16)).getD 0
  rawOffset := (rd 4 d (o+20)).getD 0
  characteristics := (rd 4 d (o+36)).getD 0

def parsePe (d : Bytes) : PeInfo :=
  if d.length < 0x40 ∨ d.getD 0 0 ≠ byte 'M' ∨ d.getD 1 0 ≠ byte 'Z' then
    {error := "not MZ"}
  else
    let lfanew := (rd 4 d 0x3c).getD 0
    if lfanew+24 > d.length then {error := "invalid e_lfanew"}
    else if (d.drop lfanew).take 4 ≠ peSignature then {error := "missing PE signature"}
    else
      let coff := (rd 2 d (lfanew+22)).getD 0
      let out : PeInfo :=
        { machine:=(rd 2 d (lfanew+4)).getD 0,coffCharacteristics:=coff,dll:=coff &&& 0x2000 != 0 }
      let nsec := (rd 2 d (lfanew+6)).getD 0
      let opt := (rd 2 d (lfanew+20)).getD 0
      let oo := lfanew+24
      if oo+opt > d.length then {out with error := "truncated optional header"}
      else
        let magic := (rd 2 d oo).getD 0
        let out := {out with pe64:=magic == 0x20b}
        if ¬(magic = 0x10b ∨ magic = 0x20b) then {out with error := "unknown optional header"}
        else
          let out :=
            { out with
              entryRva:=(rd 4 d (oo+16)).getD 0,imageSize:=(rd 4 d (oo+56)).getD 0
              headersSize:=(rd 4 d (oo+60)).getD 0,subsystem:=(rd 2 d (oo+68)).getD 0
              imageBase := if out.pe64 then (rd 8 d (oo+24)).getD 0
                else (rd 4 d (oo+28)).getD 0 }
          let so := oo+opt
          if so+nsec*40 > d.length then {out with error := "truncated section table"}
          else
            let sections := (List.range nsec).map fun i => peSection d (so+i*40)
            let rawEnd := sections.foldl (fun e s => max e (s.rawOffset+s.rawSize))
              out.headersSize
            let out := {out with sections:=sections}
            let out := if rawEnd < d.length
              then {out with overlayOffset:=rawEnd,overlaySize:=d.length-rawEnd}
              else out
            {out with valid:=true}

end AutoRefirst
