/-!
# Kinds of characters

Every code point is of one of five kinds. Quoted text shows a printable character as itself and any
other by its code point: controls, format characters, unassigned code points and all separators but
the plain space are not printable. A word character is a letter or a number of any script, or the
underscore. A number is a decimal digit or a sign for a number such as a fraction or a Roman
numeral.
-/

namespace TreeScript.Text

/-- The kinds of code points. -/
inductive Kind where
  /-- Not printable. -/
  | hidden
  /-- Printable and of no other kind. -/
  | sign
  | letter
  | number
  /-- What identifiers go on with beside letters and numbers: combining marks and connectors. -/
  | mark
  deriving DecidableEq

/-- The kind that a digit stands for. -/
def Kind.ofDigit : Nat → Kind
  | 1 => .sign
  | 2 => .letter
  | 3 => .number
  | 4 => .mark
  | _ => .hidden

/-- The code points in runs of one kind, from the first one on. The last digit of an entry stands
for the kind, and those before it are the length of the run. -/
def kindRuns : List Nat :=
  [320, 161, 103, 71, 262, 61, 262, 41, 340, 91, 12, 21, 10, 41, 23, 11, 12, 11, 14, 11, 13, 12, 11,
  33, 11, 232, 11, 312, 11, 4582, 41, 122, 141, 52, 71, 12, 11, 12, 171, 1124, 52, 11, 22, 20, 42,
  11, 12, 40, 21, 12, 14, 32, 10, 12, 10, 202, 10, 832, 11, 1392, 11, 54, 21, 1662, 10, 382, 20, 12,
  61, 412, 21, 20, 31, 10, 454, 11, 14, 11, 24, 11, 24, 11, 14, 80, 272, 40, 42, 21, 170, 101, 114,
  11, 10, 31, 432, 214, 103, 41, 22, 14, 992, 11, 12, 74, 10, 11, 64, 22, 24, 11, 44, 22, 103, 32,
  21, 12, 141, 20, 12, 14, 302, 274, 20, 892, 114, 12, 140, 103, 332, 94, 22, 41, 12, 20, 14, 21,
  222, 44, 12, 94, 12, 34, 12, 54, 20, 151, 10, 252, 34, 20, 11, 10, 112, 50, 242, 11, 62, 90, 84,
  422, 244, 10, 334, 542, 34, 12, 184, 12, 74, 102, 24, 21, 103, 11, 162, 34, 10, 82, 20, 22, 20,
  222, 10, 72, 10, 12, 30, 42, 20, 14, 12, 74, 20, 24, 20, 34, 12, 80, 14, 40, 22, 10, 32, 24, 20,
  103, 22, 21, 63, 21, 12, 11, 14, 20, 34, 10, 62, 40, 22, 20, 222, 10, 72, 10, 22, 10, 22, 10, 22,
  20, 14, 10, 54, 40, 24, 20, 34, 30, 14, 70, 42, 10, 12, 70, 103, 24, 32, 14, 11, 100, 34, 10, 92,
  10, 32, 10, 222, 10, 72, 10, 22, 10, 52, 20, 14, 12, 84, 10, 34, 10, 34, 20, 12, 150, 22, 24, 20,
  103, 21, 70, 12, 64, 10, 34, 10, 82, 20, 22, 20, 222, 10, 72, 10, 22, 10, 52, 20, 14, 12, 74, 20,
  24, 20, 34, 70, 34, 40, 22, 10, 32, 24, 20, 103, 11, 12, 63, 100, 14, 12, 10, 62, 30, 32, 10, 42,
  30, 22, 10, 12, 10, 22, 30, 22, 30, 32, 30, 122, 40, 54, 30, 34, 10, 44, 20, 12, 60, 14, 140, 133,
  81, 50, 54, 82, 10, 32, 10, 232, 10, 162, 20, 14, 12, 74, 10, 34, 10, 44, 70, 24, 10, 32, 20, 12,
  20, 22, 24, 20, 103, 70, 11, 73, 11, 12, 34, 11, 82, 10, 32, 10, 232, 10, 102, 10, 52, 20, 14, 12,
  74, 10, 34, 10, 44, 70, 24, 60, 22, 10, 22, 24, 20, 103, 10, 22, 130, 44, 92, 10, 32, 10, 412, 24,
  12, 74, 10, 34, 10, 44, 12, 11, 40, 32, 14, 73, 32, 24, 20, 193, 11, 62, 10, 34, 10, 182, 30, 242,
  10, 92, 10, 12, 20, 72, 30, 14, 40, 64, 10, 14, 10, 84, 60, 103, 20, 24, 11, 120, 482, 14, 22, 74,
  40, 11, 72, 84, 11, 103, 21, 370, 22, 10, 12, 10, 52, 10, 242, 10, 12, 10, 102, 14, 22, 94, 12,
  20, 52, 10, 12, 10, 64, 20, 103, 20, 42, 320, 12, 231, 24, 61, 203, 11, 14, 11, 14, 11, 14, 41,
  24, 82, 10, 362, 40, 204, 11, 24, 52, 114, 10, 364, 10, 81, 14, 61, 10, 131, 370, 432, 204, 12,
  103, 61, 62, 44, 42, 34, 12, 34, 22, 74, 32, 44, 132, 124, 12, 14, 103, 44, 21, 382, 10, 12, 50,
  12, 20, 432, 11, 3332, 10, 42, 20, 72, 10, 12, 10, 42, 20, 412, 10, 42, 20, 332, 10, 42, 20, 72,
  10, 12, 10, 42, 20, 152, 10, 572, 10, 42, 20, 672, 20, 34, 91, 203, 30, 162, 101, 60, 862, 20, 62,
  20, 11, 6202, 21, 172, 10, 262, 21, 30, 752, 31, 33, 82, 70, 182, 44, 90, 192, 34, 21, 90, 182,
  24, 120, 132, 10, 32, 10, 24, 120, 522, 324, 31, 12, 41, 12, 14, 20, 103, 60, 103, 60, 111, 34,
  10, 14, 103, 60, 892, 70, 52, 21, 342, 14, 12, 50, 702, 100, 312, 10, 124, 40, 124, 40, 11, 30,
  21, 103, 302, 20, 52, 110, 442, 40, 262, 60, 113, 30, 341, 232, 54, 20, 21, 532, 104, 10, 294, 20,
  14, 103, 60, 103, 60, 71, 12, 61, 20, 144, 11, 164, 490, 54, 472, 174, 82, 30, 103, 171, 94, 111,
  10, 34, 302, 134, 22, 103, 442, 144, 80, 41, 362, 204, 30, 51, 103, 30, 32, 103, 362, 21, 92, 70,
  432, 20, 32, 81, 80, 34, 11, 214, 42, 14, 62, 14, 22, 34, 12, 50, 1922, 644, 2782, 20, 62, 20,
  382, 20, 62, 20, 82, 10, 12, 10, 12, 10, 12, 10, 312, 20, 532, 10, 72, 11, 12, 31, 32, 10, 72, 31,
  42, 20, 62, 10, 31, 132, 31, 20, 32, 10, 72, 21, 170, 241, 80, 151, 24, 191, 14, 101, 170, 13, 12,
  20, 63, 51, 12, 103, 51, 10, 132, 30, 331, 150, 134, 41, 14, 31, 124, 150, 21, 12, 41, 12, 21,
  102, 11, 12, 31, 52, 61, 12, 11, 12, 11, 12, 11, 42, 11, 112, 21, 42, 51, 52, 41, 12, 11, 513, 22,
  53, 21, 40, 6631, 250, 111, 210, 603, 781, 223, 6301, 303, 9921, 20, 321, 10, 1051, 2292, 61, 42,
  34, 22, 50, 41, 13, 21, 382, 10, 12, 50, 12, 20, 562, 70, 12, 11, 140, 14, 232, 90, 72, 10, 72,
  10, 72, 10, 72, 10, 72, 10, 72, 10, 72, 10, 72, 10, 324, 471, 12, 461, 340, 261, 10, 891, 120,
  2141, 260, 121, 50, 41, 22, 13, 251, 93, 64, 11, 52, 21, 33, 22, 31, 10, 862, 20, 24, 21, 32, 11,
  902, 11, 42, 50, 432, 10, 942, 10, 21, 43, 101, 322, 361, 120, 162, 311, 10, 103, 301, 83, 11,
  153, 321, 103, 391, 153, 3201, 65922, 641, 221572, 30, 551, 90, 462, 21, 2692, 31, 162, 103, 22,
  200, 472, 14, 41, 104, 11, 312, 24, 702, 103, 24, 61, 80, 231, 92, 21, 1032, 21, 642, 50, 22, 10,
  12, 10, 52, 240, 162, 14, 32, 14, 42, 14, 232, 54, 41, 14, 30, 63, 41, 60, 522, 41, 80, 24, 502,
  184, 80, 21, 103, 60, 184, 62, 31, 12, 11, 22, 14, 103, 282, 84, 21, 232, 134, 110, 11, 292, 30,
  44, 472, 144, 131, 10, 12, 103, 40, 21, 52, 14, 102, 103, 52, 10, 412, 144, 90, 32, 14, 82, 24,
  20, 103, 20, 41, 232, 31, 12, 34, 502, 14, 12, 34, 22, 24, 52, 24, 12, 14, 12, 240, 32, 21, 112,
  54, 21, 32, 24, 100, 62, 20, 62, 20, 62, 90, 72, 10, 72, 10, 432, 11, 142, 21, 40, 1152, 84, 11,
  24, 20, 103, 60, 111722, 120, 232, 40, 492, 84520, 3662, 20, 1062, 380, 72, 120, 52, 50, 12, 14,
  102, 11, 132, 10, 52, 10, 12, 10, 22, 10, 22, 10, 1082, 171, 160, 3632, 181, 642, 20, 542, 70, 11,
  320, 122, 41, 164, 101, 60, 164, 31, 24, 241, 34, 31, 10, 191, 10, 41, 40, 52, 10, 1352, 40, 151,
  103, 71, 262, 41, 14, 11, 262, 111, 892, 30, 62, 20, 62, 20, 62, 20, 32, 30, 71, 10, 71, 130, 21,
  20, 122, 10, 262, 10, 192, 10, 22, 10, 152, 20, 142, 340, 1232, 50, 31, 40, 453, 30, 91, 573, 171,
  23, 31, 10, 131, 30, 11, 470, 451, 14, 1300, 292, 30, 492, 150, 14, 273, 40, 322, 43, 90, 202, 13,
  82, 13, 50, 382, 54, 50, 302, 10, 11, 362, 40, 82, 11, 53, 420, 1582, 20, 103, 60, 362, 40, 362,
  40, 402, 80, 522, 110, 11, 112, 10, 152, 10, 72, 10, 22, 10, 112, 10, 152, 10, 72, 10, 22, 670,
  3112, 90, 222, 100, 82, 240, 62, 10, 422, 10, 92, 690, 62, 20, 12, 10, 442, 10, 22, 30, 12, 20,
  232, 10, 11, 83, 232, 21, 73, 312, 80, 93, 480, 192, 10, 22, 50, 53, 222, 63, 30, 11, 262, 50, 11,
  640, 562, 40, 23, 22, 163, 20, 463, 12, 34, 10, 24, 50, 44, 42, 10, 32, 10, 292, 20, 34, 40, 14,
  93, 70, 91, 70, 292, 23, 11, 292, 33, 320, 82, 11, 282, 24, 40, 53, 71, 90, 542, 30, 71, 222, 20,
  83, 192, 50, 83, 182, 70, 41, 120, 73, 800, 732, 550, 512, 130, 512, 70, 63, 362, 44, 80, 103,
  2940, 313, 10, 422, 10, 24, 11, 20, 22, 780, 292, 103, 12, 80, 222, 114, 43, 51, 220, 182, 44, 41,
  380, 212, 73, 200, 232, 90, 34, 532, 154, 71, 40, 303, 14, 22, 24, 12, 90, 44, 452, 114, 21, 10,
  41, 14, 130, 252, 70, 103, 60, 34, 362, 144, 10, 103, 41, 12, 24, 12, 80, 352, 14, 21, 12, 90, 34,
  482, 144, 42, 41, 44, 11, 24, 103, 12, 11, 12, 31, 10, 203, 110, 182, 10, 252, 124, 61, 14, 650,
  72, 10, 12, 10, 42, 10, 152, 10, 102, 11, 60, 472, 124, 50, 103, 60, 44, 10, 82, 20, 22, 20, 222,
  10, 72, 10, 22, 10, 52, 10, 24, 12, 74, 20, 24, 20, 34, 20, 12, 60, 14, 50, 52, 24, 20, 74, 30,
  54, 1390, 532, 184, 42, 51, 103, 21, 10, 11, 14, 32, 300, 482, 204, 22, 11, 12, 80, 103, 1660,
  472, 74, 20, 94, 231, 42, 24, 340, 482, 174, 31, 12, 110, 103, 60, 131, 190, 432, 134, 12, 11, 60,
  103, 540, 272, 20, 154, 40, 123, 41, 72, 1850, 442, 154, 11, 1000, 642, 193, 120, 82, 20, 12, 20,
  82, 10, 22, 10, 242, 64, 10, 24, 20, 44, 12, 14, 12, 24, 31, 90, 103, 700, 82, 20, 392, 74, 20,
  74, 12, 11, 12, 14, 270, 12, 104, 402, 74, 12, 44, 81, 14, 80, 12, 114, 462, 164, 31, 12, 51, 130,
  732, 2630, 92, 10, 372, 84, 10, 84, 12, 51, 100, 293, 30, 21, 302, 20, 224, 10, 144, 730, 72, 10,
  22, 10, 382, 64, 30, 14, 10, 24, 10, 74, 12, 14, 80, 103, 60, 62, 10, 22, 10, 322, 54, 10, 24, 10,
  54, 12, 70, 103, 3100, 192, 44, 21, 1830, 12, 150, 213, 291, 130, 11, 9222, 1020, 1113, 10, 51,
  110, 1962, 26360, 972, 21, 130, 10712, 40490, 5832, 86330, 5692, 70, 312, 10, 103, 40, 21, 792,
  10, 103, 60, 302, 20, 54, 11, 100, 482, 74, 91, 42, 21, 100, 103, 10, 73, 10, 212, 50, 192, 6880,
  642, 233, 41, 1010, 752, 40, 14, 12, 554, 70, 44, 132, 640, 22, 11, 12, 14, 110, 24, 140, 61362,
  80, 12382, 420, 92, 89350, 42, 10, 72, 10, 22, 10, 2912, 450, 32, 170, 42, 80, 3962, 23080, 1072,
  50, 132, 30, 92, 70, 102, 20, 11, 24, 11, 47040, 464, 20, 234, 90, 1161, 600, 2461, 100, 391, 20,
  601, 54, 31, 64, 80, 84, 21, 74, 301, 44, 611, 210, 661, 34, 11, 1540, 203, 120, 871, 90, 253,
  1350, 852, 10, 712, 10, 22, 20, 12, 20, 22, 20, 42, 10, 122, 10, 12, 10, 72, 10, 652, 10, 42, 20,
  82, 10, 72, 10, 282, 10, 42, 10, 52, 10, 12, 30, 72, 10, 3402, 20, 252, 11, 252, 11, 312, 11, 252,
  11, 312, 11, 252, 11, 312, 11, 252, 11, 312, 11, 252, 11, 82, 20, 503, 5121, 554, 41, 504, 81, 14,
  141, 14, 71, 150, 54, 10, 154, 11040, 312, 2250, 74, 10, 174, 20, 74, 10, 24, 10, 54, 2130, 452,
  30, 74, 72, 20, 103, 40, 12, 11, 3200, 302, 14, 170, 442, 44, 103, 50, 11, 12480, 72, 10, 42, 10,
  22, 10, 152, 10, 1972, 20, 93, 74, 410, 682, 74, 12, 40, 103, 40, 21, 7850, 593, 11, 33, 11, 43,
  760, 453, 11, 153, 1940, 42, 10, 272, 10, 22, 10, 12, 20, 12, 10, 102, 10, 42, 10, 12, 10, 12, 60,
  12, 40, 12, 10, 12, 10, 12, 10, 32, 10, 22, 10, 12, 20, 12, 10, 12, 10, 12, 10, 12, 10, 12, 10,
  22, 10, 12, 20, 42, 10, 72, 10, 42, 10, 42, 10, 12, 10, 102, 10, 172, 50, 32, 10, 52, 10, 172,
  520, 21, 2700, 441, 40, 1001, 120, 151, 20, 151, 10, 151, 10, 371, 100, 133, 1611, 560, 291, 130,
  441, 40, 91, 70, 21, 140, 61, 1540, 9841, 50, 161, 30, 131, 30, 1161, 120, 891, 70, 121, 40, 11,
  150, 121, 40, 561, 80, 101, 60, 401, 80, 301, 20, 21, 780, 3401, 120, 141, 20, 51, 30, 51, 30, 71,
  90, 291, 30, 111, 50, 61, 100, 101, 60, 81, 80, 71, 90, 1471, 10, 551, 370, 103, 10300, 427202,
  320, 41532, 70, 2222, 20, 57622, 140, 74732, 31030, 5422, 15060, 49392, 7162130, 2404]

/-- The kind of the code point that so many others in some runs come before. -/
def kindAt : List Nat → Nat → Kind
  | [], _ => .hidden
  | run :: rest, before =>
    if before < run / 10 then .ofDigit (run % 10) else kindAt rest (before - run / 10)

/-- The kind of a character. -/
def kind (c : Char) : Kind := kindAt kindRuns c.toNat

/-- Whether a character is shown as itself in quoted text. -/
def isPrintable (c : Char) : Bool := kind c != .hidden

/-- Whether a character is a letter of some script. -/
def isLetter (c : Char) : Bool := kind c == .letter

/-- Whether a character is a letter or a number of some script. -/
def isAlphanumeric (c : Char) : Bool := isLetter c || kind c == .number

/-- Whether a character can stand in a word. -/
def isWord (c : Char) : Bool := isAlphanumeric c || c == '_'

end TreeScript.Text
