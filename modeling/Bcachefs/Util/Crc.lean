import Bcachefs.Lib.Crc

namespace Bcachefs
open Crc

-- crc32c_default's table (c_src/tools-util.c).
def crc32cTab : List UInt32 := [
  0x00000000,0xF26B8303,0xE13B70F7,0x1350F3F4,
  0xC79A971F,0x35F1141C,0x26A1E7E8,0xD4CA64EB,
  0x8AD958CF,0x78B2DBCC,0x6BE22838,0x9989AB3B,
  0x4D43CFD0,0xBF284CD3,0xAC78BF27,0x5E133C24,
  0x105EC76F,0xE235446C,0xF165B798,0x030E349B,
  0xD7C45070,0x25AFD373,0x36FF2087,0xC494A384,
  0x9A879FA0,0x68EC1CA3,0x7BBCEF57,0x89D76C54,
  0x5D1D08BF,0xAF768BBC,0xBC267848,0x4E4DFB4B,
  0x20BD8EDE,0xD2D60DDD,0xC186FE29,0x33ED7D2A,
  0xE72719C1,0x154C9AC2,0x061C6936,0xF477EA35,
  0xAA64D611,0x580F5512,0x4B5FA6E6,0xB93425E5,
  0x6DFE410E,0x9F95C20D,0x8CC531F9,0x7EAEB2FA,
  0x30E349B1,0xC288CAB2,0xD1D83946,0x23B3BA45,
  0xF779DEAE,0x05125DAD,0x1642AE59,0xE4292D5A,
  0xBA3A117E,0x4851927D,0x5B016189,0xA96AE28A,
  0x7DA08661,0x8FCB0562,0x9C9BF696,0x6EF07595,
  0x417B1DBC,0xB3109EBF,0xA0406D4B,0x522BEE48,
  0x86E18AA3,0x748A09A0,0x67DAFA54,0x95B17957,
  0xCBA24573,0x39C9C670,0x2A993584,0xD8F2B687,
  0x0C38D26C,0xFE53516F,0xED03A29B,0x1F682198,
  0x5125DAD3,0xA34E59D0,0xB01EAA24,0x42752927,
  0x96BF4DCC,0x64D4CECF,0x77843D3B,0x85EFBE38,
  0xDBFC821C,0x2997011F,0x3AC7F2EB,0xC8AC71E8,
  0x1C661503,0xEE0D9600,0xFD5D65F4,0x0F36E6F7,
  0x61C69362,0x93AD1061,0x80FDE395,0x72966096,
  0xA65C047D,0x5437877E,0x4767748A,0xB50CF789,
  0xEB1FCBAD,0x197448AE,0x0A24BB5A,0xF84F3859,
  0x2C855CB2,0xDEEEDFB1,0xCDBE2C45,0x3FD5AF46,
  0x7198540D,0x83F3D70E,0x90A324FA,0x62C8A7F9,
  0xB602C312,0x44694011,0x5739B3E5,0xA55230E6,
  0xFB410CC2,0x092A8FC1,0x1A7A7C35,0xE811FF36,
  0x3CDB9BDD,0xCEB018DE,0xDDE0EB2A,0x2F8B6829,
  0x82F63B78,0x709DB87B,0x63CD4B8F,0x91A6C88C,
  0x456CAC67,0xB7072F64,0xA457DC90,0x563C5F93,
  0x082F63B7,0xFA44E0B4,0xE9141340,0x1B7F9043,
  0xCFB5F4A8,0x3DDE77AB,0x2E8E845F,0xDCE5075C,
  0x92A8FC17,0x60C37F14,0x73938CE0,0x81F80FE3,
  0x55326B08,0xA759E80B,0xB4091BFF,0x466298FC,
  0x1871A4D8,0xEA1A27DB,0xF94AD42F,0x0B21572C,
  0xDFEB33C7,0x2D80B0C4,0x3ED04330,0xCCBBC033,
  0xA24BB5A6,0x502036A5,0x4370C551,0xB11B4652,
  0x65D122B9,0x97BAA1BA,0x84EA524E,0x7681D14D,
  0x2892ED69,0xDAF96E6A,0xC9A99D9E,0x3BC21E9D,
  0xEF087A76,0x1D63F975,0x0E330A81,0xFC588982,
  0xB21572C9,0x407EF1CA,0x532E023E,0xA145813D,
  0x758FE5D6,0x87E466D5,0x94B49521,0x66DF1622,
  0x38CC2A06,0xCAA7A905,0xD9F75AF1,0x2B9CD9F2,
  0xFF56BD19,0x0D3D3E1A,0x1E6DCDEE,0xEC064EED,
  0xC38D26C4,0x31E6A5C7,0x22B65633,0xD0DDD530,
  0x0417B1DB,0xF67C32D8,0xE52CC12C,0x1747422F,
  0x49547E0B,0xBB3FFD08,0xA86F0EFC,0x5A048DFF,
  0x8ECEE914,0x7CA56A17,0x6FF599E3,0x9D9E1AE0,
  0xD3D3E1AB,0x21B862A8,0x32E8915C,0xC083125F,
  0x144976B4,0xE622F5B7,0xF5720643,0x07198540,
  0x590AB964,0xAB613A67,0xB831C993,0x4A5A4A90,
  0x9E902E7B,0x6CFBAD78,0x7FAB5E8C,0x8DC0DD8F,
  0xE330A81A,0x115B2B19,0x020BD8ED,0xF0605BEE,
  0x24AA3F05,0xD6C1BC06,0xC5914FF2,0x37FACCF1,
  0x69E9F0D5,0x9B8273D6,0x88D28022,0x7AB90321,
  0xAE7367CA,0x5C18E4C9,0x4F48173D,0xBD23943E,
  0xF36E6F75,0x0105EC76,0x12551F82,0xE03E9C81,
  0x34F4F86A,0xC69F7B69,0xD5CF889D,0x27A40B9E,
  0x79B737BA,0x8BDCB4B9,0x988C474D,0x6AE7C44E,
  0xBE2DA0A5,0x4C4623A6,0x5F16D052,0xAD7D5351]

-- One pass of crc32c_default's loop.
def crc32cByte (crc : UInt32) (p : UInt8) : UInt32 :=
  crc32cTab.getD ((crc ^^^ p.toUInt32) &&& 0xFF).toNat 0 ^^^ (crc >>> 8)

def crc32cDefault (crc : UInt32) (buf : List UInt8) : UInt32 := buf.foldl crc32cByte crc

-- crc32c() takes crc32c_sse42 where the CPU has SSE4.2; the instruction computes the
-- same register as the table, and the model is the portable loop.
def crc32c (crc : UInt32) (buf : List UInt8) : UInt32 := crc32cDefault crc buf

-- One bit of the reflected CRC-32C register, polynomial 0x82F63B78: the table holds
-- eight of these of each octet.
def crc32cShift : UInt32 → UInt32 := shiftStep (· >>> 1) (fun c => c.toBitVec.getLsbD 0) 0x82F63B78

-- The whole table at once: a list comparison stays linear where indexing each entry
-- would walk the list again.
set_option maxRecDepth 2000 in
theorem crc32cTab_eq_map : crc32cTab = (List.range 256).map fun i => crc32cShift^[8] (UInt32.ofNat i) := by
  decide

theorem crc32cTab_eq_shifts : ∀ i : Fin 256, crc32cTab.getD i.val 0 = crc32cShift^[8] (UInt32.ofNat i.val) := by
  intro i
  rw [crc32cTab_eq_map,List.getD_eq_getElem?_getD,List.getElem?_map,List.getElem?_range i.isLt]
  rfl

theorem crc32cShift_additive : Additive crc32cShift :=
  shiftStep_additive (fun _ _ => UInt32.shiftRight_xor) (fun _ _ => by simp) UInt32.xor_self

theorem and_0xFF_additive32 : Additive (fun x : UInt32 => x &&& 0xFF) := by
  intro a b
  apply UInt32.toNat_inj.mp
  simp [Nat.and_xor_distrib_right]

theorem crc32cByte_eq_shifts (crc : UInt32) (p : UInt8) :
    crc32cByte crc p = crc32cShift^[8] ((crc ^^^ p.toUInt32) &&& 0xFF) ^^^ (crc >>> 8) := by
  have low : ((crc ^^^ p.toUInt32) &&& 0xFF).toNat < 256 := by
    rw [UInt32.toNat_and]
    exact Nat.lt_of_le_of_lt Nat.and_le_right (by decide)
  have entry := crc32cTab_eq_shifts ⟨_,low⟩
  rw [UInt32.ofNat_toNat] at entry
  rw [crc32cByte,entry]

theorem crc32cByte_linear : Linear crc32cByte := by
  have table := linear_of_table ((crc32cShift_additive.iterate 8).comp and_0xFF_additive32)
    (show Additive (fun c : UInt32 => c >>> 8) from fun _ _ => UInt32.shiftRight_xor)
    (show Additive (fun c : UInt32 => c) from fun _ _ => rfl) UInt8.toUInt32_xor
  intro c c' b b'
  simp only [crc32cByte_eq_shifts]
  exact table c c' b b'

@[simp] theorem crc32c_append (crc : UInt32) (x y : List UInt8) : crc32c crc (x ++ y) = crc32c (crc32c crc x) y :=
  List.foldl_append

-- The identity bch2_checksum_merge rests on: the register run from a seed over
-- zeros, plus the register run from zero over the bytes, is the register run from the
-- seed over the bytes.
theorem crc32c_zeros_xor (crc : UInt32) (buf : List UInt8) :
    crc32c crc (List.replicate buf.length 0) ^^^ crc32c 0 buf = crc32c crc buf :=
  crc32cByte_linear.foldl_zeros_xor crc buf

-- crc64table (linux/crc64table.h).
def crc64table : List UInt64 := [
  0x0000000000000000,0x42f0e1eba9ea3693,
  0x85e1c3d753d46d26,0xc711223cfa3e5bb5,
  0x493366450e42ecdf,0x0bc387aea7a8da4c,
  0xccd2a5925d9681f9,0x8e224479f47cb76a,
  0x9266cc8a1c85d9be,0xd0962d61b56fef2d,
  0x17870f5d4f51b498,0x5577eeb6e6bb820b,
  0xdb55aacf12c73561,0x99a54b24bb2d03f2,
  0x5eb4691841135847,0x1c4488f3e8f96ed4,
  0x663d78ff90e185ef,0x24cd9914390bb37c,
  0xe3dcbb28c335e8c9,0xa12c5ac36adfde5a,
  0x2f0e1eba9ea36930,0x6dfeff5137495fa3,
  0xaaefdd6dcd770416,0xe81f3c86649d3285,
  0xf45bb4758c645c51,0xb6ab559e258e6ac2,
  0x71ba77a2dfb03177,0x334a9649765a07e4,
  0xbd68d2308226b08e,0xff9833db2bcc861d,
  0x388911e7d1f2dda8,0x7a79f00c7818eb3b,
  0xcc7af1ff21c30bde,0x8e8a101488293d4d,
  0x499b3228721766f8,0x0b6bd3c3dbfd506b,
  0x854997ba2f81e701,0xc7b97651866bd192,
  0x00a8546d7c558a27,0x4258b586d5bfbcb4,
  0x5e1c3d753d46d260,0x1cecdc9e94ace4f3,
  0xdbfdfea26e92bf46,0x990d1f49c77889d5,
  0x172f5b3033043ebf,0x55dfbadb9aee082c,
  0x92ce98e760d05399,0xd03e790cc93a650a,
  0xaa478900b1228e31,0xe8b768eb18c8b8a2,
  0x2fa64ad7e2f6e317,0x6d56ab3c4b1cd584,
  0xe374ef45bf6062ee,0xa1840eae168a547d,
  0x66952c92ecb40fc8,0x2465cd79455e395b,
  0x3821458aada7578f,0x7ad1a461044d611c,
  0xbdc0865dfe733aa9,0xff3067b657990c3a,
  0x711223cfa3e5bb50,0x33e2c2240a0f8dc3,
  0xf4f3e018f031d676,0xb60301f359dbe0e5,
  0xda050215ea6c212f,0x98f5e3fe438617bc,
  0x5fe4c1c2b9b84c09,0x1d14202910527a9a,
  0x93366450e42ecdf0,0xd1c685bb4dc4fb63,
  0x16d7a787b7faa0d6,0x5427466c1e109645,
  0x4863ce9ff6e9f891,0x0a932f745f03ce02,
  0xcd820d48a53d95b7,0x8f72eca30cd7a324,
  0x0150a8daf8ab144e,0x43a04931514122dd,
  0x84b16b0dab7f7968,0xc6418ae602954ffb,
  0xbc387aea7a8da4c0,0xfec89b01d3679253,
  0x39d9b93d2959c9e6,0x7b2958d680b3ff75,
  0xf50b1caf74cf481f,0xb7fbfd44dd257e8c,
  0x70eadf78271b2539,0x321a3e938ef113aa,
  0x2e5eb66066087d7e,0x6cae578bcfe24bed,
  0xabbf75b735dc1058,0xe94f945c9c3626cb,
  0x676dd025684a91a1,0x259d31cec1a0a732,
  0xe28c13f23b9efc87,0xa07cf2199274ca14,
  0x167ff3eacbaf2af1,0x548f120162451c62,
  0x939e303d987b47d7,0xd16ed1d631917144,
  0x5f4c95afc5edc62e,0x1dbc74446c07f0bd,
  0xdaad56789639ab08,0x985db7933fd39d9b,
  0x84193f60d72af34f,0xc6e9de8b7ec0c5dc,
  0x01f8fcb784fe9e69,0x43081d5c2d14a8fa,
  0xcd2a5925d9681f90,0x8fdab8ce70822903,
  0x48cb9af28abc72b6,0x0a3b7b1923564425,
  0x70428b155b4eaf1e,0x32b26afef2a4998d,
  0xf5a348c2089ac238,0xb753a929a170f4ab,
  0x3971ed50550c43c1,0x7b810cbbfce67552,
  0xbc902e8706d82ee7,0xfe60cf6caf321874,
  0xe224479f47cb76a0,0xa0d4a674ee214033,
  0x67c58448141f1b86,0x253565a3bdf52d15,
  0xab1721da49899a7f,0xe9e7c031e063acec,
  0x2ef6e20d1a5df759,0x6c0603e6b3b7c1ca,
  0xf6fae5c07d3274cd,0xb40a042bd4d8425e,
  0x731b26172ee619eb,0x31ebc7fc870c2f78,
  0xbfc9838573709812,0xfd39626eda9aae81,
  0x3a28405220a4f534,0x78d8a1b9894ec3a7,
  0x649c294a61b7ad73,0x266cc8a1c85d9be0,
  0xe17dea9d3263c055,0xa38d0b769b89f6c6,
  0x2daf4f0f6ff541ac,0x6f5faee4c61f773f,
  0xa84e8cd83c212c8a,0xeabe6d3395cb1a19,
  0x90c79d3fedd3f122,0xd2377cd44439c7b1,
  0x15265ee8be079c04,0x57d6bf0317edaa97,
  0xd9f4fb7ae3911dfd,0x9b041a914a7b2b6e,
  0x5c1538adb04570db,0x1ee5d94619af4648,
  0x02a151b5f156289c,0x4051b05e58bc1e0f,
  0x87409262a28245ba,0xc5b073890b687329,
  0x4b9237f0ff14c443,0x0962d61b56fef2d0,
  0xce73f427acc0a965,0x8c8315cc052a9ff6,
  0x3a80143f5cf17f13,0x7870f5d4f51b4980,
  0xbf61d7e80f251235,0xfd913603a6cf24a6,
  0x73b3727a52b393cc,0x31439391fb59a55f,
  0xf652b1ad0167feea,0xb4a25046a88dc879,
  0xa8e6d8b54074a6ad,0xea16395ee99e903e,
  0x2d071b6213a0cb8b,0x6ff7fa89ba4afd18,
  0xe1d5bef04e364a72,0xa3255f1be7dc7ce1,
  0x64347d271de22754,0x26c49cccb40811c7,
  0x5cbd6cc0cc10fafc,0x1e4d8d2b65facc6f,
  0xd95caf179fc497da,0x9bac4efc362ea149,
  0x158e0a85c2521623,0x577eeb6e6bb820b0,
  0x906fc95291867b05,0xd29f28b9386c4d96,
  0xcedba04ad0952342,0x8c2b41a1797f15d1,
  0x4b3a639d83414e64,0x09ca82762aab78f7,
  0x87e8c60fded7cf9d,0xc51827e4773df90e,
  0x020905d88d03a2bb,0x40f9e43324e99428,
  0x2cffe7d5975e55e2,0x6e0f063e3eb46371,
  0xa91e2402c48a38c4,0xebeec5e96d600e57,
  0x65cc8190991cb93d,0x273c607b30f68fae,
  0xe02d4247cac8d41b,0xa2dda3ac6322e288,
  0xbe992b5f8bdb8c5c,0xfc69cab42231bacf,
  0x3b78e888d80fe17a,0x7988096371e5d7e9,
  0xf7aa4d1a85996083,0xb55aacf12c735610,
  0x724b8ecdd64d0da5,0x30bb6f267fa73b36,
  0x4ac29f2a07bfd00d,0x08327ec1ae55e69e,
  0xcf235cfd546bbd2b,0x8dd3bd16fd818bb8,
  0x03f1f96f09fd3cd2,0x41011884a0170a41,
  0x86103ab85a2951f4,0xc4e0db53f3c36767,
  0xd8a453a01b3a09b3,0x9a54b24bb2d03f20,
  0x5d45907748ee6495,0x1fb5719ce1045206,
  0x919735e51578e56c,0xd367d40ebc92d3ff,
  0x1476f63246ac884a,0x568617d9ef46bed9,
  0xe085162ab69d5e3c,0xa275f7c11f7768af,
  0x6564d5fde549331a,0x279434164ca30589,
  0xa9b6706fb8dfb2e3,0xeb46918411358470,
  0x2c57b3b8eb0bdfc5,0x6ea7525342e1e956,
  0x72e3daa0aa188782,0x30133b4b03f2b111,
  0xf7021977f9cceaa4,0xb5f2f89c5026dc37,
  0x3bd0bce5a45a6b5d,0x79205d0e0db05dce,
  0xbe317f32f78e067b,0xfcc19ed95e6430e8,
  0x86b86ed5267cdbd3,0xc4488f3e8f96ed40,
  0x0359ad0275a8b6f5,0x41a94ce9dc428066,
  0xcf8b0890283e370c,0x8d7be97b81d4019f,
  0x4a6acb477bea5a2a,0x089a2aacd2006cb9,
  0x14dea25f3af9026d,0x562e43b4931334fe,
  0x913f6188692d6f4b,0xd3cf8063c0c759d8,
  0x5dedc41a34bbeeb2,0x1f1d25f19d51d821,
  0xd80c07cd676f8394,0x9afce626ce85b507]

-- One pass of crc64_be's loop.
def crc64BeByte (crc : UInt64) (p : UInt8) : UInt64 :=
  crc64table.getD (((crc >>> 56) ^^^ p.toUInt64) &&& 0xFF).toNat 0 ^^^ (crc <<< 8)

def crc64Be (crc : UInt64) (p : List UInt8) : UInt64 := p.foldl crc64BeByte crc

-- One bit of the ECMA-182 register, polynomial 0x42F0E1EBA9EA3693, shifted towards
-- the top: the table holds eight of these of each octet placed at the top.
def crc64Shift : UInt64 → UInt64 := shiftStep (· <<< 1) (fun c => c.toBitVec.getLsbD 63) 0x42F0E1EBA9EA3693

set_option maxRecDepth 2000 in
theorem crc64table_eq_map : crc64table = (List.range 256).map fun i => crc64Shift^[8] (UInt64.ofNat i <<< 56) := by
  decide

theorem crc64table_eq_shifts :
    ∀ i : Fin 256, crc64table.getD i.val 0 = crc64Shift^[8] (UInt64.ofNat i.val <<< 56) := by
  intro i
  rw [crc64table_eq_map,List.getD_eq_getElem?_getD,List.getElem?_map,List.getElem?_range i.isLt]
  rfl

theorem crc64Shift_additive : Additive crc64Shift :=
  shiftStep_additive (fun _ _ => UInt64.shiftLeft_xor) (fun _ _ => by simp) UInt64.xor_self

theorem and_0xFF_additive64 : Additive (fun x : UInt64 => x &&& 0xFF) := by
  intro a b
  apply UInt64.toNat_inj.mp
  simp [Nat.and_xor_distrib_right]

theorem crc64BeByte_eq_shifts (crc : UInt64) (p : UInt8) :
    crc64BeByte crc p = crc64Shift^[8] ((((crc >>> 56) ^^^ p.toUInt64) &&& 0xFF) <<< 56) ^^^ (crc <<< 8) := by
  have low : (((crc >>> 56) ^^^ p.toUInt64) &&& 0xFF).toNat < 256 := by
    rw [UInt64.toNat_and]
    exact Nat.lt_of_le_of_lt Nat.and_le_right (by decide)
  have entry := crc64table_eq_shifts ⟨_,low⟩
  rw [UInt64.ofNat_toNat] at entry
  rw [crc64BeByte,entry]

theorem crc64BeByte_linear : Linear crc64BeByte := by
  have placed : Additive (fun x : UInt64 => x <<< 56) := fun _ _ => UInt64.shiftLeft_xor
  have table := linear_of_table (((crc64Shift_additive.iterate 8).comp placed).comp and_0xFF_additive64)
    (show Additive (fun c : UInt64 => c <<< 8) from fun _ _ => UInt64.shiftLeft_xor)
    (show Additive (fun c : UInt64 => c >>> 56) from fun _ _ => UInt64.shiftRight_xor) UInt8.toUInt64_xor
  intro c c' b b'
  simp only [crc64BeByte_eq_shifts]
  exact table c c' b b'

@[simp] theorem crc64Be_append (crc : UInt64) (x y : List UInt8) : crc64Be crc (x ++ y) = crc64Be (crc64Be crc x) y :=
  List.foldl_append

theorem crc64Be_zeros_xor (crc : UInt64) (p : List UInt8) :
    crc64Be crc (List.replicate p.length 0) ^^^ crc64Be 0 p = crc64Be crc p :=
  crc64BeByte_linear.foldl_zeros_xor crc p

-- Both registers are linear over GF(2) in the seed and the bytes together, which the
-- merge of checksums needs: each table holds the remainders of its polynomial.
theorem crc32c_and_crc64_be_are_linear :
    (∀ (crc crc' : UInt32) (buf buf' : List UInt8), buf.length = buf'.length →
      crc32c (crc ^^^ crc') (List.zipWith (· ^^^ ·) buf buf') = crc32c crc buf ^^^ crc32c crc' buf') ∧
    (∀ (crc crc' : UInt64) (p p' : List UInt8), p.length = p'.length →
      crc64Be (crc ^^^ crc') (List.zipWith (· ^^^ ·) p p') = crc64Be crc p ^^^ crc64Be crc' p') :=
  ⟨fun crc crc' buf buf' same => crc32cByte_linear.foldl_zipWith buf buf' crc crc' same,
    fun crc crc' p p' same => crc64BeByte_linear.foldl_zipWith p p' crc crc' same⟩

theorem crc_linear_on_two_bytes :
    [1].length = [2].length ∧
      crc32c (5 ^^^ 9) (List.zipWith (· ^^^ ·) [1] [2]) = crc32c 5 [1] ^^^ crc32c 9 [2] :=
  ⟨rfl,crc32c_and_crc64_be_are_linear.1 5 9 [1] [2] rfl⟩

end Bcachefs
