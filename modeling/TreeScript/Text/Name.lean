import TreeScript.Text.Hex

/-!
# Names of characters

The names that common characters have in the Unicode standard. They are listed in runs of characters
whose codes follow each other and whose names begin alike: the code of the first one, the common
beginning and, after a colon, what follows it in each name, as in `30 DIGIT :ZERO|ONE|TWO`. Runs are
separated by semicolons, and line ends in a table mean nothing.
-/

namespace TreeScript.Text

namespace Name

/-- Letters, digits and signs of ASCII, and Latin letters with marks. -/
def latin : String :=
  "
20 :SPACE|EXCLAMATION MARK|QUOTATION MARK|NUMBER SIGN|DOLLAR SIGN|PERCENT SIGN|AMPERSAND|
APOSTROPHE|LEFT PARENTHESIS|RIGHT PARENTHESIS|ASTERISK|PLUS SIGN|COMMA|HYPHEN-MINUS|FULL STOP|
SOLIDUS;
30 DIGIT :ZERO|ONE|TWO|THREE|FOUR|FIVE|SIX|SEVEN|EIGHT|NINE;
3A :COLON|SEMICOLON|LESS-THAN SIGN|EQUALS SIGN|GREATER-THAN SIGN|QUESTION MARK|COMMERCIAL AT;
41 LATIN CAPITAL LETTER :A|B|C|D|E|F|G|H|I|J|K|L|M|N|O|P|Q|R|S|T|U|V|W|X|Y|Z;
5B :LEFT SQUARE BRACKET|REVERSE SOLIDUS|RIGHT SQUARE BRACKET|CIRCUMFLEX ACCENT|LOW LINE|
GRAVE ACCENT;
61 LATIN SMALL LETTER :A|B|C|D|E|F|G|H|I|J|K|L|M|N|O|P|Q|R|S|T|U|V|W|X|Y|Z;
7B :LEFT CURLY BRACKET|VERTICAL LINE|RIGHT CURLY BRACKET|TILDE;
A0 :NO-BREAK SPACE|INVERTED EXCLAMATION MARK|CENT SIGN|POUND SIGN|CURRENCY SIGN|YEN SIGN|
BROKEN BAR|SECTION SIGN|DIAERESIS|COPYRIGHT SIGN|FEMININE ORDINAL INDICATOR|
LEFT-POINTING DOUBLE ANGLE QUOTATION MARK|NOT SIGN|SOFT HYPHEN|REGISTERED SIGN|MACRON|DEGREE SIGN|
PLUS-MINUS SIGN;
B2 SUPERSCRIPT :TWO|THREE;
B4 :ACUTE ACCENT|MICRO SIGN|PILCROW SIGN|MIDDLE DOT|CEDILLA|SUPERSCRIPT ONE|
MASCULINE ORDINAL INDICATOR|RIGHT-POINTING DOUBLE ANGLE QUOTATION MARK;
BC VULGAR FRACTION :ONE QUARTER|ONE HALF|THREE QUARTERS;
BF INVERTED QUESTION :MARK;
C0 LATIN CAPITAL LETTER A WITH :GRAVE|ACUTE|CIRCUMFLEX|TILDE|DIAERESIS|RING ABOVE;
C6 LATIN CAPITAL LETTER :AE|C WITH CEDILLA|E WITH GRAVE|E WITH ACUTE|E WITH CIRCUMFLEX|
E WITH DIAERESIS|I WITH GRAVE|I WITH ACUTE|I WITH CIRCUMFLEX|I WITH DIAERESIS|ETH|N WITH TILDE;
D2 LATIN CAPITAL LETTER O WITH :GRAVE|ACUTE|CIRCUMFLEX|TILDE|DIAERESIS;
D7 MULTIPLICATION :SIGN;
D8 LATIN CAPITAL LETTER :O WITH STROKE|U WITH GRAVE|U WITH ACUTE|U WITH CIRCUMFLEX|
U WITH DIAERESIS|Y WITH ACUTE|THORN;
DF LATIN SMALL LETTER :SHARP S|A WITH GRAVE|A WITH ACUTE|A WITH CIRCUMFLEX|A WITH TILDE|
A WITH DIAERESIS|A WITH RING ABOVE|AE|C WITH CEDILLA|E WITH GRAVE|E WITH ACUTE|E WITH CIRCUMFLEX|
E WITH DIAERESIS|I WITH GRAVE|I WITH ACUTE|I WITH CIRCUMFLEX|I WITH DIAERESIS|ETH|N WITH TILDE;
F2 LATIN SMALL LETTER O WITH :GRAVE|ACUTE|CIRCUMFLEX|TILDE|DIAERESIS;
F7 DIVISION :SIGN;
F8 LATIN SMALL LETTER :O WITH STROKE|U WITH GRAVE|U WITH ACUTE|U WITH CIRCUMFLEX|U WITH DIAERESIS|
Y WITH ACUTE|THORN|Y WITH DIAERESIS"

/-- Greek letters. -/
def greek : String :=
  "
386 GREEK :CAPITAL LETTER ALPHA WITH TONOS|ANO TELEIA;
388 GREEK CAPITAL LETTER :EPSILON WITH TONOS|ETA WITH TONOS|IOTA WITH TONOS;
38C GREEK CAPITAL LETTER OMICRON WITH :TONOS;
38E GREEK CAPITAL LETTER :UPSILON WITH TONOS|OMEGA WITH TONOS;
390 GREEK SMALL LETTER IOTA WITH DIALYTIKA AND :TONOS;
391 GREEK CAPITAL LETTER :ALPHA|BETA|GAMMA|DELTA|EPSILON|ZETA|ETA|THETA|IOTA|KAPPA|LAMDA|MU|NU|XI|
OMICRON|PI|RHO;
3A3 GREEK CAPITAL LETTER :SIGMA|TAU|UPSILON|PHI|CHI|PSI|OMEGA|IOTA WITH DIALYTIKA|
UPSILON WITH DIALYTIKA;
3AC GREEK SMALL LETTER :ALPHA WITH TONOS|EPSILON WITH TONOS|ETA WITH TONOS|IOTA WITH TONOS|
UPSILON WITH DIALYTIKA AND TONOS|ALPHA|BETA|GAMMA|DELTA|EPSILON|ZETA|ETA|THETA|IOTA|KAPPA|LAMDA|MU|
NU|XI|OMICRON|PI|RHO|FINAL SIGMA|SIGMA|TAU|UPSILON|PHI|CHI|PSI|OMEGA|IOTA WITH DIALYTIKA|
UPSILON WITH DIALYTIKA|OMICRON WITH TONOS|UPSILON WITH TONOS|OMEGA WITH TONOS"

/-- Punctuation, numbers that are raised or lowered, and currencies. -/
def punctuation : String :=
  "
2010 :HYPHEN|NON-BREAKING HYPHEN|FIGURE DASH|EN DASH|EM DASH|HORIZONTAL BAR|DOUBLE VERTICAL LINE|
DOUBLE LOW LINE|LEFT SINGLE QUOTATION MARK|RIGHT SINGLE QUOTATION MARK|SINGLE LOW-9 QUOTATION MARK|
SINGLE HIGH-REVERSED-9 QUOTATION MARK|LEFT DOUBLE QUOTATION MARK|RIGHT DOUBLE QUOTATION MARK|
DOUBLE LOW-9 QUOTATION MARK|DOUBLE HIGH-REVERSED-9 QUOTATION MARK|DAGGER|DOUBLE DAGGER|BULLET|
TRIANGULAR BULLET|ONE DOT LEADER|TWO DOT LEADER|HORIZONTAL ELLIPSIS|HYPHENATION POINT;
202F :NARROW NO-BREAK SPACE|PER MILLE SIGN|PER TEN THOUSAND SIGN|PRIME|DOUBLE PRIME|TRIPLE PRIME;
2035 REVERSED :PRIME|DOUBLE PRIME|TRIPLE PRIME;
2038 :CARET|SINGLE LEFT-POINTING ANGLE QUOTATION MARK|SINGLE RIGHT-POINTING ANGLE QUOTATION MARK|
REFERENCE MARK|DOUBLE EXCLAMATION MARK|INTERROBANG|OVERLINE|UNDERTIE|CHARACTER TIE|
CARET INSERTION POINT|ASTERISM|HYPHEN BULLET|FRACTION SLASH|LEFT SQUARE BRACKET WITH QUILL|
RIGHT SQUARE BRACKET WITH QUILL|DOUBLE QUESTION MARK|QUESTION EXCLAMATION MARK|
EXCLAMATION QUESTION MARK|TIRONIAN SIGN ET|REVERSED PILCROW SIGN|BLACK LEFTWARDS BULLET|
BLACK RIGHTWARDS BULLET|LOW ASTERISK|REVERSED SEMICOLON|CLOSE UP|TWO ASTERISKS ALIGNED VERTICALLY|
COMMERCIAL MINUS SIGN|SWUNG DASH|INVERTED UNDERTIE|FLOWER PUNCTUATION MARK|THREE DOT PUNCTUATION|
QUADRUPLE PRIME|FOUR DOT PUNCTUATION|FIVE DOT PUNCTUATION|TWO DOT PUNCTUATION|FOUR DOT MARK|
DOTTED CROSS|TRICOLON|VERTICAL FOUR DOTS;
2070 SUPERSCRIPT :ZERO|LATIN SMALL LETTER I;
2074 SUPERSCRIPT :FOUR|FIVE|SIX|SEVEN|EIGHT|NINE|PLUS SIGN|MINUS|EQUALS SIGN|LEFT PARENTHESIS|
RIGHT PARENTHESIS|LATIN SMALL LETTER N;
2080 SUBSCRIPT :ZERO|ONE|TWO|THREE|FOUR|FIVE|SIX|SEVEN|EIGHT|NINE|PLUS SIGN|MINUS|EQUALS SIGN|
LEFT PARENTHESIS|RIGHT PARENTHESIS;
20A0 :EURO-CURRENCY SIGN|COLON SIGN|CRUZEIRO SIGN|FRENCH FRANC SIGN|LIRA SIGN|MILL SIGN|NAIRA SIGN|
PESETA SIGN|RUPEE SIGN|WON SIGN|NEW SHEQEL SIGN|DONG SIGN|EURO SIGN|KIP SIGN|TUGRIK SIGN|
DRACHMA SIGN|GERMAN PENNY SIGN|PESO SIGN|GUARANI SIGN|AUSTRAL SIGN|HRYVNIA SIGN|CEDI SIGN|
LIVRE TOURNOIS SIGN|SPESMILO SIGN|TENGE SIGN|INDIAN RUPEE SIGN|TURKISH LIRA SIGN|NORDIC MARK SIGN|
MANAT SIGN|RUBLE SIGN|LARI SIGN|BITCOIN SIGN"

/-- Arrows, operators, shapes and pictures. -/
def symbols : String :=
  "
2190 :LEFTWARDS ARROW|UPWARDS ARROW|RIGHTWARDS ARROW|DOWNWARDS ARROW;
2200 :FOR ALL|COMPLEMENT|PARTIAL DIFFERENTIAL|THERE EXISTS|THERE DOES NOT EXIST|EMPTY SET|INCREMENT|
NABLA|ELEMENT OF;
2211 :N-ARY SUMMATION|MINUS SIGN;
221A :SQUARE ROOT;
221E :INFINITY;
2248 :ALMOST EQUAL TO;
2260 :NOT EQUAL TO|IDENTICAL TO;
2264 :LESS-THAN OR EQUAL TO|GREATER-THAN OR EQUAL TO;
25A0 :BLACK SQUARE|WHITE SQUARE;
25CF :BLACK CIRCLE;
2600 :BLACK SUN WITH RAYS|CLOUD|UMBRELLA|SNOWMAN|COMET|BLACK STAR|WHITE STAR;
2713 :CHECK MARK;
2764 :HEAVY BLACK HEART;
1F44D :THUMBS UP SIGN;
1F600 :GRINNING FACE|GRINNING FACE WITH SMILING EYES|FACE WITH TEARS OF JOY|
SMILING FACE WITH OPEN MOUTH|SMILING FACE WITH OPEN MOUTH AND SMILING EYES|
SMILING FACE WITH OPEN MOUTH AND COLD SWEAT|SMILING FACE WITH OPEN MOUTH AND TIGHTLY-CLOSED EYES;
1F680 :ROCKET"

/-- The runs of a table. -/
def runsOf (table : String) : List String :=
  (String.ofList (table.toList.filter (· != '\n'))).splitOn ";"

/-- The code in a run of the character that has a name. -/
def findIn? (name : List Char) (run : String) : Option Nat :=
  match run.splitOn ":" with
  | [head, ends] =>
    let code := head.toList.takeWhile (· != ' ')
    let start := head.toList.drop (code.length + 1)
    if start.isPrefixOf name then do
      let first ← ofHex? code
      let place ← (ends.splitOn "|").findIdx? (·.toList == name.drop start.length)
      pure (first + place)
    else none
  | _ => none

end Name

/-- The character that has a name, in any letter case. -/
def named? (name : String) : Option Char :=
  let tables := [Name.latin, Name.greek, Name.punctuation, Name.symbols]
  ((tables.flatMap Name.runsOf).findSome? (Name.findIn? (name.toList.map Char.toUpper))).map
    Char.ofNat

end TreeScript.Text
