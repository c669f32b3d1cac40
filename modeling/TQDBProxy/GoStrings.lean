import Mathlib.Data.List.Basic

/-! Go strings as byte lists, with the functions of packages `strings`,
`unicode/utf8` and `unicode` that the proxy calls. `ToUpper` works on runes: an
ill-formed byte becomes U+FFFD, and a rune may change its encoded length. The
case table lists runs `(first, last, stride, image of first)` of the simple
upper-case mapping beyond ASCII. -/

namespace TQDBProxy

def joinWith {α : Type*} (sep : List α) : List (List α) → List α
  | [] => []
  | [part] => part
  | part :: next :: rest => part ++ sep ++ joinWith sep (next :: rest)

abbrev GoString := List UInt8

def lit (text : String) : GoString := text.toUTF8.data.toList

namespace Utf8

def runeError : Nat := 0xFFFD

def continues (lo hi : Nat) (b : UInt8) : Bool := lo ≤ b.toNat && b.toNat ≤ hi

/-- The first rune and its width; an ill-formed byte is U+FFFD of width one. -/
def decodeRune : GoString → Nat × Nat
  | [] => (runeError, 0)
  | a :: rest =>
    let n := a.toNat
    if n < 0x80 then (n, 1)
    else if 0xC2 ≤ n && n ≤ 0xDF then
      match rest with
      | b :: _ =>
        if continues 0x80 0xBF b then ((n - 0xC0) * 64 + (b.toNat - 0x80), 2) else (runeError, 1)
      | [] => (runeError, 1)
    else if 0xE0 ≤ n && n ≤ 0xEF then
      let lo := if n = 0xE0 then 0xA0 else 0x80
      let hi := if n = 0xED then 0x9F else 0xBF
      match rest with
      | b :: c :: _ =>
        if continues lo hi b && continues 0x80 0xBF c then
          ((n - 0xE0) * 4096 + (b.toNat - 0x80) * 64 + (c.toNat - 0x80), 3)
        else (runeError, 1)
      | _ => (runeError, 1)
    else if 0xF0 ≤ n && n ≤ 0xF4 then
      let lo := if n = 0xF0 then 0x90 else 0x80
      let hi := if n = 0xF4 then 0x8F else 0xBF
      match rest with
      | b :: c :: d :: _ =>
        if continues lo hi b && continues 0x80 0xBF c && continues 0x80 0xBF d then
          ((n - 0xF0) * 262144 + (b.toNat - 0x80) * 4096 + (c.toNat - 0x80) * 64
            + (d.toNat - 0x80), 4)
        else (runeError, 1)
      | _ => (runeError, 1)
    else (runeError, 1)

def encodeRune (r : Nat) : GoString :=
  if r < 0x80 then [UInt8.ofNat r]
  else if r < 0x800 then [UInt8.ofNat (0xC0 + r / 64), UInt8.ofNat (0x80 + r % 64)]
  else if r < 0x10000 then
    [UInt8.ofNat (0xE0 + r / 4096), UInt8.ofNat (0x80 + r / 64 % 64), UInt8.ofNat (0x80 + r % 64)]
  else
    [UInt8.ofNat (0xF0 + r / 262144), UInt8.ofNat (0x80 + r / 4096 % 64),
     UInt8.ofNat (0x80 + r / 64 % 64), UInt8.ofNat (0x80 + r % 64)]

/-- The runes of a string; `skip` bytes belong to a rune already decoded. -/
def runesFrom (skip : Nat) : GoString → List Nat
  | [] => []
  | b :: rest =>
    match skip with
    | 0 =>
      let decoded := decodeRune (b :: rest)
      decoded.1 :: runesFrom (decoded.2 - 1) rest
    | skip + 1 => runesFrom skip rest

def runes (s : GoString) : List Nat := runesFrom 0 s

end Utf8

namespace Unicode

def upperRuns : List (Nat × Nat × Nat × Nat) :=
  [(181, 181, 1, 924), (224, 246, 1, 192), (248, 254, 1, 216), (255, 255, 1, 376),
   (257, 303, 2, 256), (305, 305, 1, 73), (307, 311, 2, 306), (314, 328, 2, 313),
   (331, 375, 2, 330), (378, 382, 2, 377), (383, 383, 1, 83), (384, 384, 1, 579),
   (387, 389, 2, 386), (392, 392, 1, 391), (396, 396, 1, 395), (402, 402, 1, 401),
   (405, 405, 1, 502), (409, 409, 1, 408), (410, 410, 1, 573), (414, 414, 1, 544),
   (417, 421, 2, 416), (424, 424, 1, 423), (429, 429, 1, 428), (432, 432, 1, 431),
   (436, 438, 2, 435), (441, 441, 1, 440), (445, 445, 1, 444), (447, 447, 1, 503),
   (453, 453, 1, 452), (454, 454, 1, 452), (456, 456, 1, 455), (457, 457, 1, 455),
   (459, 459, 1, 458), (460, 460, 1, 458), (462, 476, 2, 461), (477, 477, 1, 398),
   (479, 495, 2, 478), (498, 498, 1, 497), (499, 499, 1, 497), (501, 501, 1, 500),
   (505, 543, 2, 504), (547, 563, 2, 546), (572, 572, 1, 571), (575, 576, 1, 11390),
   (578, 578, 1, 577), (583, 591, 2, 582), (592, 592, 1, 11375), (593, 593, 1, 11373),
   (594, 594, 1, 11376), (595, 595, 1, 385), (596, 596, 1, 390), (598, 599, 1, 393),
   (601, 601, 1, 399), (603, 603, 1, 400), (604, 604, 1, 42923), (608, 608, 1, 403),
   (609, 609, 1, 42924), (611, 611, 1, 404), (613, 613, 1, 42893), (614, 614, 1, 42922),
   (616, 616, 1, 407), (617, 617, 1, 406), (618, 618, 1, 42926), (619, 619, 1, 11362),
   (620, 620, 1, 42925), (623, 623, 1, 412), (625, 625, 1, 11374), (626, 626, 1, 413),
   (629, 629, 1, 415), (637, 637, 1, 11364), (640, 640, 1, 422), (642, 642, 1, 42949),
   (643, 643, 1, 425), (647, 647, 1, 42929), (648, 648, 1, 430), (649, 649, 1, 580),
   (650, 651, 1, 433), (652, 652, 1, 581), (658, 658, 1, 439), (669, 669, 1, 42930),
   (670, 670, 1, 42928), (837, 837, 1, 921), (881, 883, 2, 880), (887, 887, 1, 886),
   (891, 893, 1, 1021), (940, 940, 1, 902), (941, 943, 1, 904), (945, 961, 1, 913),
   (962, 962, 1, 931), (963, 971, 1, 931), (972, 972, 1, 908), (973, 974, 1, 910),
   (976, 976, 1, 914), (977, 977, 1, 920), (981, 981, 1, 934), (982, 982, 1, 928),
   (983, 983, 1, 975), (985, 1007, 2, 984), (1008, 1008, 1, 922), (1009, 1009, 1, 929),
   (1010, 1010, 1, 1017), (1011, 1011, 1, 895), (1013, 1013, 1, 917), (1016, 1016, 1, 1015),
   (1019, 1019, 1, 1018), (1072, 1103, 1, 1040), (1104, 1119, 1, 1024), (1121, 1153, 2, 1120),
   (1163, 1215, 2, 1162), (1218, 1230, 2, 1217), (1231, 1231, 1, 1216), (1233, 1327, 2, 1232),
   (1377, 1414, 1, 1329), (4304, 4346, 1, 7312), (4349, 4351, 1, 7357), (5112, 5117, 1, 5104),
   (7296, 7296, 1, 1042), (7297, 7297, 1, 1044), (7298, 7298, 1, 1054), (7299, 7300, 1, 1057),
   (7301, 7301, 1, 1058), (7302, 7302, 1, 1066), (7303, 7303, 1, 1122), (7304, 7304, 1, 42570),
   (7545, 7545, 1, 42877), (7549, 7549, 1, 11363), (7566, 7566, 1, 42950), (7681, 7829, 2, 7680),
   (7835, 7835, 1, 7776), (7841, 7935, 2, 7840), (7936, 7943, 1, 7944), (7952, 7957, 1, 7960),
   (7968, 7975, 1, 7976), (7984, 7991, 1, 7992), (8000, 8005, 1, 8008), (8017, 8023, 2, 8025),
   (8032, 8039, 1, 8040), (8048, 8049, 1, 8122), (8050, 8053, 1, 8136), (8054, 8055, 1, 8154),
   (8056, 8057, 1, 8184), (8058, 8059, 1, 8170), (8060, 8061, 1, 8186), (8064, 8071, 1, 8072),
   (8080, 8087, 1, 8088), (8096, 8103, 1, 8104), (8112, 8113, 1, 8120), (8115, 8115, 1, 8124),
   (8126, 8126, 1, 921), (8131, 8131, 1, 8140), (8144, 8145, 1, 8152), (8160, 8161, 1, 8168),
   (8165, 8165, 1, 8172), (8179, 8179, 1, 8188), (8526, 8526, 1, 8498), (8560, 8575, 1, 8544),
   (8580, 8580, 1, 8579), (9424, 9449, 1, 9398), (11312, 11359, 1, 11264),
   (11361, 11361, 1, 11360), (11365, 11365, 1, 570), (11366, 11366, 1, 574),
   (11368, 11372, 2, 11367), (11379, 11379, 1, 11378), (11382, 11382, 1, 11381),
   (11393, 11491, 2, 11392), (11500, 11502, 2, 11499), (11507, 11507, 1, 11506),
   (11520, 11557, 1, 4256), (11559, 11559, 1, 4295), (11565, 11565, 1, 4301),
   (42561, 42605, 2, 42560), (42625, 42651, 2, 42624), (42787, 42799, 2, 42786),
   (42803, 42863, 2, 42802), (42874, 42876, 2, 42873), (42879, 42887, 2, 42878),
   (42892, 42892, 1, 42891), (42897, 42899, 2, 42896), (42900, 42900, 1, 42948),
   (42903, 42921, 2, 42902), (42933, 42947, 2, 42932), (42952, 42954, 2, 42951),
   (42961, 42961, 1, 42960), (42967, 42969, 2, 42966), (42998, 42998, 1, 42997),
   (43859, 43859, 1, 42931), (43888, 43967, 1, 5024), (65345, 65370, 1, 65313),
   (66600, 66639, 1, 66560), (66776, 66811, 1, 66736), (66967, 67003, 2, 66928),
   (66968, 66976, 2, 66929), (66980, 66992, 2, 66941), (66996, 67000, 2, 66957),
   (67004, 67004, 1, 66965), (68800, 68850, 1, 68736), (71872, 71903, 1, 71840),
   (93792, 93823, 1, 93760), (125218, 125251, 1, 125184)]

def toUpper (r : Nat) : Nat :=
  if r < 0x80 then (if 97 ≤ r && r ≤ 122 then r - 32 else r)
  else
    match upperRuns.find? fun (first, last, stride, _) =>
        first ≤ r && r ≤ last && (r - first) % stride == 0 with
    | some (first, _, _, image) => image + (r - first)
    | none => r

/-- The encodings of the runes of `unicode.IsSpace`. -/
def spaces : List GoString :=
  [[9], [10], [11], [12], [13], [32], [0xC2, 0x85], [0xC2, 0xA0], [0xE1, 0x9A, 0x80],
   [0xE2, 0x80, 0x80], [0xE2, 0x80, 0x81], [0xE2, 0x80, 0x82], [0xE2, 0x80, 0x83],
   [0xE2, 0x80, 0x84], [0xE2, 0x80, 0x85], [0xE2, 0x80, 0x86], [0xE2, 0x80, 0x87],
   [0xE2, 0x80, 0x88], [0xE2, 0x80, 0x89], [0xE2, 0x80, 0x8A], [0xE2, 0x80, 0xA8],
   [0xE2, 0x80, 0xA9], [0xE2, 0x80, 0xAF], [0xE2, 0x81, 0x9F], [0xE3, 0x80, 0x80]]

end Unicode

namespace Strings

def upperByte (b : UInt8) : UInt8 := if 97 ≤ b && b ≤ 122 then b - 32 else b

def isAscii (s : GoString) : Bool := s.all (· < 0x80)

def toUpper (s : GoString) : GoString :=
  if isAscii s then s.map upperByte
  else (Utf8.runes s).flatMap fun r => Utf8.encodeRune (Unicode.toUpper r)

def hasPrefix (s pre : GoString) : Bool := pre.isPrefixOf s

def index (s sub : GoString) : Option Nat :=
  match s with
  | [] => if sub.isEmpty then some 0 else none
  | b :: rest => if sub.isPrefixOf (b :: rest) then some 0 else (index rest sub).map (· + 1)

def contains (s sub : GoString) : Bool := (index s sub).isSome

/-- `s[i:]`, which panics beyond the end. -/
def sliceFrom (s : GoString) (i : Nat) : Option GoString :=
  if i ≤ s.length then some (s.drop i) else none

/-- `s[:i]`, which panics beyond the end. -/
def sliceTo (s : GoString) (i : Nat) : Option GoString :=
  if i ≤ s.length then some (s.take i) else none

def dropPieces (pieces : List GoString) : Nat → GoString → GoString
  | 0, s => s
  | fuel + 1, s =>
    match pieces.find? (·.isPrefixOf s) with
    | some piece => dropPieces pieces fuel (s.drop piece.length)
    | none => s

def trimLeft (s : GoString) : GoString := dropPieces Unicode.spaces s.length s

def trimRight (s : GoString) : GoString :=
  (dropPieces (Unicode.spaces.map List.reverse) s.length s.reverse).reverse

def trimSpace (s : GoString) : GoString := trimRight (trimLeft s)

def split (s : GoString) (sep : UInt8) : List GoString :=
  match s with
  | [] => [[]]
  | b :: rest =>
    if b = sep then [] :: split rest sep
    else
      match split rest sep with
      | piece :: pieces => (b :: piece) :: pieces
      | [] => [[b]]

def count (s : GoString) (b : UInt8) : Nat := List.count b s

def trimSuffix (s suffix : GoString) : GoString :=
  if suffix.isSuffixOf s then s.take (s.length - suffix.length) else s

/-- `strings.Trim` with a set of ASCII bytes. -/
def trim (s : GoString) (cutset : List UInt8) : GoString :=
  ((s.dropWhile cutset.contains).reverse.dropWhile cutset.contains).reverse

def takeField : GoString → GoString × GoString
  | [] => ([], [])
  | b :: rest =>
    if Unicode.spaces.any (·.isPrefixOf (b :: rest)) then ([], b :: rest)
    else
      let (field, after) := takeField rest
      (b :: field, after)

def fieldsFrom : Nat → GoString → List GoString
  | 0, _ => []
  | fuel + 1, s =>
    match trimLeft s with
    | [] => []
    | s =>
      let (field, after) := takeField s
      field :: fieldsFrom fuel after

def fields (s : GoString) : List GoString := fieldsFrom s.length s

end Strings

namespace Strconv

def itoaAux : Nat → Nat → GoString → GoString
  | 0, _, acc => acc
  | fuel + 1, n, acc =>
    let acc := UInt8.ofNat (48 + n % 10) :: acc
    if n < 10 then acc else itoaAux fuel (n / 10) acc

def itoa (n : Nat) : GoString := itoaAux (n + 1) n []

def digitsValue (s : GoString) : Nat := s.foldl (fun n b => n * 10 + (b.toNat - 48)) 0

end Strconv

namespace Binary

def littleEndian (bytes : List UInt8) : Nat := bytes.foldr (fun b n => b.toNat + 256 * n) 0

def bigEndian (bytes : List UInt8) : Nat := bytes.foldl (fun n b => 256 * n + b.toNat) 0

end Binary

end TQDBProxy
