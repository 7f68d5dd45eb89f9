namespace MessageSchema.Text

/-!
Names in letters of either case.
-/

/-- A letter in lower case.  The long `s` and the sign for Kelvin count as letters too.
-/
def foldLetter (value : Char) : Char :=
  if value.toNat = 0x17F then 's' else if value.toNat = 0x212A then 'k' else value.toLower

/-- Is the name the known one, which is in lower case, in letters of either
case? -/
def isNamed (known name : String) : Bool :=
  name.toList.map foldLetter == known.toList

/-!
Lower case by the simple mapping of Unicode 15.0: every character has one image,
so a text keeps its length.
-/

/-- A run of capitals: every `step`-th character from `first` to `last` is mapped, the
first one to `image`. -/
structure CaseRun where
  first : Nat
  last : Nat
  step : Nat
  image : Nat

def CaseRun.covers (run : CaseRun) (number : Nat) : Bool :=
  run.first <= number && number <= run.last && (number - run.first) % run.step == 0

/-- A single capital. -/
def CaseRun.one (capital image : Nat) : CaseRun :=
  ⟨capital, capital, 1, image⟩

/-- Capitals that stand each before its own image. -/
def CaseRun.pairs (first last : Nat) : CaseRun :=
  ⟨first, last, 2, first + 1⟩

def caseRuns : Array CaseRun := #[
  ⟨65, 90, 1, 97⟩, ⟨192, 214, 1, 224⟩, ⟨216, 222, 1, 248⟩, .pairs 256 302, .one 304 105,
  .pairs 306 310, .pairs 313 327, .pairs 330 374, .one 376 255, .pairs 377 381, .one 385 595,
  .pairs 386 388, .one 390 596, .one 391 392, ⟨393, 394, 1, 598⟩, .one 395 396, .one 398 477,
  .one 399 601, .one 400 603, .one 401 402, .one 403 608, .one 404 611, .one 406 617, .one 407 616,
  .one 408 409, .one 412 623, .one 413 626, .one 415 629, .pairs 416 420, .one 422 640,
  .one 423 424, .one 425 643, .one 428 429, .one 430 648, .one 431 432, ⟨433, 434, 1, 650⟩,
  .pairs 435 437, .one 439 658, .one 440 441, .one 444 445, .one 452 454, .one 453 454,
  .one 455 457, .one 456 457, .one 458 460, .pairs 459 475, .pairs 478 494, .one 497 499,
  .pairs 498 500, .one 502 405, .one 503 447, .pairs 504 542, .one 544 414, .pairs 546 562,
  .one 570 11365, .one 571 572, .one 573 410, .one 574 11366, .one 577 578, .one 579 384,
  .one 580 649, .one 581 652, .pairs 582 590, .pairs 880 882, .one 886 887, .one 895 1011,
  .one 902 940, ⟨904, 906, 1, 941⟩, .one 908 972, ⟨910, 911, 1, 973⟩, ⟨913, 929, 1, 945⟩,
  ⟨931, 939, 1, 963⟩, .one 975 983, .pairs 984 1006, .one 1012 952, .one 1015 1016, .one 1017 1010,
  .one 1018 1019, ⟨1021, 1023, 1, 891⟩, ⟨1024, 1039, 1, 1104⟩, ⟨1040, 1071, 1, 1072⟩,
  .pairs 1120 1152, .pairs 1162 1214, .one 1216 1231, .pairs 1217 1229, .pairs 1232 1326,
  ⟨1329, 1366, 1, 1377⟩, ⟨4256, 4293, 1, 11520⟩, .one 4295 11559, .one 4301 11565,
  ⟨5024, 5103, 1, 43888⟩, ⟨5104, 5109, 1, 5112⟩, ⟨7312, 7354, 1, 4304⟩, ⟨7357, 7359, 1, 4349⟩,
  .pairs 7680 7828, .one 7838 223, .pairs 7840 7934, ⟨7944, 7951, 1, 7936⟩, ⟨7960, 7965, 1, 7952⟩,
  ⟨7976, 7983, 1, 7968⟩, ⟨7992, 7999, 1, 7984⟩, ⟨8008, 8013, 1, 8000⟩, ⟨8025, 8031, 2, 8017⟩,
  ⟨8040, 8047, 1, 8032⟩, ⟨8072, 8079, 1, 8064⟩, ⟨8088, 8095, 1, 8080⟩, ⟨8104, 8111, 1, 8096⟩,
  ⟨8120, 8121, 1, 8112⟩, ⟨8122, 8123, 1, 8048⟩, .one 8124 8115, ⟨8136, 8139, 1, 8050⟩,
  .one 8140 8131, ⟨8152, 8153, 1, 8144⟩, ⟨8154, 8155, 1, 8054⟩, ⟨8168, 8169, 1, 8160⟩,
  ⟨8170, 8171, 1, 8058⟩, .one 8172 8165, ⟨8184, 8185, 1, 8056⟩, ⟨8186, 8187, 1, 8060⟩,
  .one 8188 8179, .one 8486 969, .one 8490 107, .one 8491 229, .one 8498 8526,
  ⟨8544, 8559, 1, 8560⟩, .one 8579 8580, ⟨9398, 9423, 1, 9424⟩, ⟨11264, 11311, 1, 11312⟩,
  .one 11360 11361, .one 11362 619, .one 11363 7549, .one 11364 637, .pairs 11367 11371,
  .one 11373 593, .one 11374 625, .one 11375 592, .one 11376 594, .one 11378 11379,
  .one 11381 11382, ⟨11390, 11391, 1, 575⟩, .pairs 11392 11490, .pairs 11499 11501,
  .one 11506 11507, .pairs 42560 42604, .pairs 42624 42650, .pairs 42786 42798, .pairs 42802 42862,
  .pairs 42873 42875, .one 42877 7545, .pairs 42878 42886, .one 42891 42892, .one 42893 613,
  .pairs 42896 42898, .pairs 42902 42920, .one 42922 614, .one 42923 604, .one 42924 609,
  .one 42925 620, .one 42926 618, .one 42928 670, .one 42929 647, .one 42930 669, .one 42931 43859,
  .pairs 42932 42946, .one 42948 42900, .one 42949 642, .one 42950 7566, .pairs 42951 42953,
  .one 42960 42961, .pairs 42966 42968, .one 42997 42998, ⟨65313, 65338, 1, 65345⟩,
  ⟨66560, 66599, 1, 66600⟩, ⟨66736, 66771, 1, 66776⟩, ⟨66928, 66938, 1, 66967⟩,
  ⟨66940, 66954, 1, 66979⟩, ⟨66956, 66962, 1, 66995⟩, ⟨66964, 66965, 1, 67003⟩,
  ⟨68736, 68786, 1, 68800⟩, ⟨71840, 71871, 1, 71872⟩, ⟨93760, 93791, 1, 93792⟩,
  ⟨125184, 125217, 1, 125218⟩]

def lowerChar (value : Char) : Char :=
  match caseRuns.find? (·.covers value.toNat) with
  | some run => Char.ofNat (run.image + (value.toNat - run.first))
  | none => value

def lower (text : String) : String :=
  text.map lowerChar

end MessageSchema.Text
