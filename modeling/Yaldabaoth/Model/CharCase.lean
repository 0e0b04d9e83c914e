import Yaldabaoth.Lib.RangeTable

/-!
# `Yaldabaoth.Model.CharCase`: upper and lower case

`to_lowercase` of characters and texts, and the first character of
`to_uppercase`, after Unicode 16. Whether a capital sigma ends a word is
said by the properties `Cased` and `Case_Ignorable`, which are parameters.
-/

set_option autoImplicit false

namespace Yaldabaoth

open RangeTable

namespace CharCase

def lowerRows : List Row :=
  [
    ⟨65, 90, 1, 97⟩, ⟨192, 214, 1, 224⟩, ⟨216, 222, 1, 248⟩, ⟨256, 302, 2, 257⟩,
    ⟨306, 310, 2, 307⟩, ⟨313, 327, 2, 314⟩, ⟨330, 374, 2, 331⟩, ⟨376, 376, 2, 255⟩,
    ⟨377, 381, 2, 378⟩, ⟨385, 385, 2, 595⟩, ⟨386, 388, 2, 387⟩, ⟨390, 390, 2, 596⟩,
    ⟨391, 391, 2, 392⟩, ⟨393, 394, 1, 598⟩, ⟨395, 395, 2, 396⟩, ⟨398, 398, 2, 477⟩,
    ⟨399, 399, 2, 601⟩, ⟨400, 400, 2, 603⟩, ⟨401, 401, 2, 402⟩, ⟨403, 403, 2, 608⟩,
    ⟨404, 404, 2, 611⟩, ⟨406, 406, 2, 617⟩, ⟨407, 407, 2, 616⟩, ⟨408, 408, 2, 409⟩,
    ⟨412, 412, 2, 623⟩, ⟨413, 413, 2, 626⟩, ⟨415, 415, 2, 629⟩, ⟨416, 420, 2, 417⟩,
    ⟨422, 422, 2, 640⟩, ⟨423, 423, 2, 424⟩, ⟨425, 425, 2, 643⟩, ⟨428, 428, 2, 429⟩,
    ⟨430, 430, 2, 648⟩, ⟨431, 431, 2, 432⟩, ⟨433, 434, 1, 650⟩, ⟨435, 437, 2, 436⟩,
    ⟨439, 439, 2, 658⟩, ⟨440, 440, 2, 441⟩, ⟨444, 444, 2, 445⟩, ⟨452, 452, 2, 454⟩,
    ⟨453, 453, 2, 454⟩, ⟨455, 455, 2, 457⟩, ⟨456, 456, 2, 457⟩, ⟨458, 458, 2, 460⟩,
    ⟨459, 475, 2, 460⟩, ⟨478, 494, 2, 479⟩, ⟨497, 497, 2, 499⟩, ⟨498, 500, 2, 499⟩,
    ⟨502, 502, 2, 405⟩, ⟨503, 503, 2, 447⟩, ⟨504, 542, 2, 505⟩, ⟨544, 544, 2, 414⟩,
    ⟨546, 562, 2, 547⟩, ⟨570, 570, 2, 11365⟩, ⟨571, 571, 2, 572⟩, ⟨573, 573, 2, 410⟩,
    ⟨574, 574, 2, 11366⟩, ⟨577, 577, 2, 578⟩, ⟨579, 579, 2, 384⟩, ⟨580, 580, 2, 649⟩,
    ⟨581, 581, 2, 652⟩, ⟨582, 590, 2, 583⟩, ⟨880, 882, 2, 881⟩, ⟨886, 886, 2, 887⟩,
    ⟨895, 895, 2, 1011⟩, ⟨902, 902, 2, 940⟩, ⟨904, 906, 1, 941⟩, ⟨908, 908, 2, 972⟩,
    ⟨910, 911, 1, 973⟩, ⟨913, 929, 1, 945⟩, ⟨931, 939, 1, 963⟩, ⟨975, 975, 2, 983⟩,
    ⟨984, 1006, 2, 985⟩, ⟨1012, 1012, 2, 952⟩, ⟨1015, 1015, 2, 1016⟩, ⟨1017, 1017, 2, 1010⟩,
    ⟨1018, 1018, 2, 1019⟩, ⟨1021, 1023, 1, 891⟩, ⟨1024, 1039, 1, 1104⟩, ⟨1040, 1071, 1, 1072⟩,
    ⟨1120, 1152, 2, 1121⟩, ⟨1162, 1214, 2, 1163⟩, ⟨1216, 1216, 2, 1231⟩, ⟨1217, 1229, 2, 1218⟩,
    ⟨1232, 1326, 2, 1233⟩, ⟨1329, 1366, 1, 1377⟩, ⟨4256, 4293, 1, 11520⟩, ⟨4295, 4295, 2, 11559⟩,
    ⟨4301, 4301, 2, 11565⟩, ⟨5024, 5103, 1, 43888⟩, ⟨5104, 5109, 1, 5112⟩, ⟨7305, 7305, 2, 7306⟩,
    ⟨7312, 7354, 1, 4304⟩, ⟨7357, 7359, 1, 4349⟩, ⟨7680, 7828, 2, 7681⟩, ⟨7838, 7838, 2, 223⟩,
    ⟨7840, 7934, 2, 7841⟩, ⟨7944, 7951, 1, 7936⟩, ⟨7960, 7965, 1, 7952⟩, ⟨7976, 7983, 1, 7968⟩,
    ⟨7992, 7999, 1, 7984⟩, ⟨8008, 8013, 1, 8000⟩, ⟨8025, 8031, 2, 8017⟩, ⟨8040, 8047, 1, 8032⟩,
    ⟨8072, 8079, 1, 8064⟩, ⟨8088, 8095, 1, 8080⟩, ⟨8104, 8111, 1, 8096⟩, ⟨8120, 8121, 1, 8112⟩,
    ⟨8122, 8123, 1, 8048⟩, ⟨8124, 8124, 2, 8115⟩, ⟨8136, 8139, 1, 8050⟩, ⟨8140, 8140, 2, 8131⟩,
    ⟨8152, 8153, 1, 8144⟩, ⟨8154, 8155, 1, 8054⟩, ⟨8168, 8169, 1, 8160⟩, ⟨8170, 8171, 1, 8058⟩,
    ⟨8172, 8172, 2, 8165⟩, ⟨8184, 8185, 1, 8056⟩, ⟨8186, 8187, 1, 8060⟩, ⟨8188, 8188, 2, 8179⟩,
    ⟨8486, 8486, 2, 969⟩, ⟨8490, 8490, 2, 107⟩, ⟨8491, 8491, 2, 229⟩, ⟨8498, 8498, 2, 8526⟩,
    ⟨8544, 8559, 1, 8560⟩, ⟨8579, 8579, 2, 8580⟩, ⟨9398, 9423, 1, 9424⟩, ⟨11264, 11311, 1, 11312⟩,
    ⟨11360, 11360, 2, 11361⟩, ⟨11362, 11362, 2, 619⟩, ⟨11363, 11363, 2, 7549⟩,
    ⟨11364, 11364, 2, 637⟩, ⟨11367, 11371, 2, 11368⟩, ⟨11373, 11373, 2, 593⟩,
    ⟨11374, 11374, 2, 625⟩, ⟨11375, 11375, 2, 592⟩, ⟨11376, 11376, 2, 594⟩,
    ⟨11378, 11378, 2, 11379⟩, ⟨11381, 11381, 2, 11382⟩, ⟨11390, 11391, 1, 575⟩,
    ⟨11392, 11490, 2, 11393⟩, ⟨11499, 11501, 2, 11500⟩, ⟨11506, 11506, 2, 11507⟩,
    ⟨42560, 42604, 2, 42561⟩, ⟨42624, 42650, 2, 42625⟩, ⟨42786, 42798, 2, 42787⟩,
    ⟨42802, 42862, 2, 42803⟩, ⟨42873, 42875, 2, 42874⟩, ⟨42877, 42877, 2, 7545⟩,
    ⟨42878, 42886, 2, 42879⟩, ⟨42891, 42891, 2, 42892⟩, ⟨42893, 42893, 2, 613⟩,
    ⟨42896, 42898, 2, 42897⟩, ⟨42902, 42920, 2, 42903⟩, ⟨42922, 42922, 2, 614⟩,
    ⟨42923, 42923, 2, 604⟩, ⟨42924, 42924, 2, 609⟩, ⟨42925, 42925, 2, 620⟩, ⟨42926, 42926, 2, 618⟩,
    ⟨42928, 42928, 2, 670⟩, ⟨42929, 42929, 2, 647⟩, ⟨42930, 42930, 2, 669⟩,
    ⟨42931, 42931, 2, 43859⟩, ⟨42932, 42946, 2, 42933⟩, ⟨42948, 42948, 2, 42900⟩,
    ⟨42949, 42949, 2, 642⟩, ⟨42950, 42950, 2, 7566⟩, ⟨42951, 42953, 2, 42952⟩,
    ⟨42955, 42955, 2, 612⟩, ⟨42956, 42956, 2, 42957⟩, ⟨42960, 42960, 2, 42961⟩,
    ⟨42966, 42970, 2, 42967⟩, ⟨42972, 42972, 2, 411⟩, ⟨42997, 42997, 2, 42998⟩,
    ⟨65313, 65338, 1, 65345⟩, ⟨66560, 66599, 1, 66600⟩, ⟨66736, 66771, 1, 66776⟩,
    ⟨66928, 66938, 1, 66967⟩, ⟨66940, 66954, 1, 66979⟩, ⟨66956, 66962, 1, 66995⟩,
    ⟨66964, 66965, 1, 67003⟩, ⟨68736, 68786, 1, 68800⟩, ⟨68944, 68965, 1, 68976⟩,
    ⟨71840, 71871, 1, 71872⟩, ⟨93760, 93791, 1, 93792⟩, ⟨125184, 125217, 1, 125218⟩
  ]

/-- The first characters, where there are several. -/
def upperRows : List Row :=
  [
    ⟨97, 122, 1, 65⟩, ⟨181, 181, 2, 924⟩, ⟨223, 223, 2, 83⟩, ⟨224, 246, 1, 192⟩,
    ⟨248, 254, 1, 216⟩, ⟨255, 255, 2, 376⟩, ⟨257, 303, 2, 256⟩, ⟨305, 305, 2, 73⟩,
    ⟨307, 311, 2, 306⟩, ⟨314, 328, 2, 313⟩, ⟨329, 329, 2, 700⟩, ⟨331, 375, 2, 330⟩,
    ⟨378, 382, 2, 377⟩, ⟨383, 383, 2, 83⟩, ⟨384, 384, 2, 579⟩, ⟨387, 389, 2, 386⟩,
    ⟨392, 392, 2, 391⟩, ⟨396, 396, 2, 395⟩, ⟨402, 402, 2, 401⟩, ⟨405, 405, 2, 502⟩,
    ⟨409, 409, 2, 408⟩, ⟨410, 410, 2, 573⟩, ⟨411, 411, 2, 42972⟩, ⟨414, 414, 2, 544⟩,
    ⟨417, 421, 2, 416⟩, ⟨424, 424, 2, 423⟩, ⟨429, 429, 2, 428⟩, ⟨432, 432, 2, 431⟩,
    ⟨436, 438, 2, 435⟩, ⟨441, 441, 2, 440⟩, ⟨445, 445, 2, 444⟩, ⟨447, 447, 2, 503⟩,
    ⟨453, 453, 2, 452⟩, ⟨454, 454, 2, 452⟩, ⟨456, 456, 2, 455⟩, ⟨457, 457, 2, 455⟩,
    ⟨459, 459, 2, 458⟩, ⟨460, 460, 2, 458⟩, ⟨462, 476, 2, 461⟩, ⟨477, 477, 2, 398⟩,
    ⟨479, 495, 2, 478⟩, ⟨496, 496, 2, 74⟩, ⟨498, 498, 2, 497⟩, ⟨499, 499, 2, 497⟩,
    ⟨501, 501, 2, 500⟩, ⟨505, 543, 2, 504⟩, ⟨547, 563, 2, 546⟩, ⟨572, 572, 2, 571⟩,
    ⟨575, 576, 1, 11390⟩, ⟨578, 578, 2, 577⟩, ⟨583, 591, 2, 582⟩, ⟨592, 592, 2, 11375⟩,
    ⟨593, 593, 2, 11373⟩, ⟨594, 594, 2, 11376⟩, ⟨595, 595, 2, 385⟩, ⟨596, 596, 2, 390⟩,
    ⟨598, 599, 1, 393⟩, ⟨601, 601, 2, 399⟩, ⟨603, 603, 2, 400⟩, ⟨604, 604, 2, 42923⟩,
    ⟨608, 608, 2, 403⟩, ⟨609, 609, 2, 42924⟩, ⟨611, 611, 2, 404⟩, ⟨612, 612, 2, 42955⟩,
    ⟨613, 613, 2, 42893⟩, ⟨614, 614, 2, 42922⟩, ⟨616, 616, 2, 407⟩, ⟨617, 617, 2, 406⟩,
    ⟨618, 618, 2, 42926⟩, ⟨619, 619, 2, 11362⟩, ⟨620, 620, 2, 42925⟩, ⟨623, 623, 2, 412⟩,
    ⟨625, 625, 2, 11374⟩, ⟨626, 626, 2, 413⟩, ⟨629, 629, 2, 415⟩, ⟨637, 637, 2, 11364⟩,
    ⟨640, 640, 2, 422⟩, ⟨642, 642, 2, 42949⟩, ⟨643, 643, 2, 425⟩, ⟨647, 647, 2, 42929⟩,
    ⟨648, 648, 2, 430⟩, ⟨649, 649, 2, 580⟩, ⟨650, 651, 1, 433⟩, ⟨652, 652, 2, 581⟩,
    ⟨658, 658, 2, 439⟩, ⟨669, 669, 2, 42930⟩, ⟨670, 670, 2, 42928⟩, ⟨837, 837, 2, 921⟩,
    ⟨881, 883, 2, 880⟩, ⟨887, 887, 2, 886⟩, ⟨891, 893, 1, 1021⟩, ⟨912, 912, 2, 921⟩,
    ⟨940, 940, 2, 902⟩, ⟨941, 943, 1, 904⟩, ⟨944, 944, 2, 933⟩, ⟨945, 961, 1, 913⟩,
    ⟨962, 962, 2, 931⟩, ⟨963, 971, 1, 931⟩, ⟨972, 972, 2, 908⟩, ⟨973, 974, 1, 910⟩,
    ⟨976, 976, 2, 914⟩, ⟨977, 977, 2, 920⟩, ⟨981, 981, 2, 934⟩, ⟨982, 982, 2, 928⟩,
    ⟨983, 983, 2, 975⟩, ⟨985, 1007, 2, 984⟩, ⟨1008, 1008, 2, 922⟩, ⟨1009, 1009, 2, 929⟩,
    ⟨1010, 1010, 2, 1017⟩, ⟨1011, 1011, 2, 895⟩, ⟨1013, 1013, 2, 917⟩, ⟨1016, 1016, 2, 1015⟩,
    ⟨1019, 1019, 2, 1018⟩, ⟨1072, 1103, 1, 1040⟩, ⟨1104, 1119, 1, 1024⟩, ⟨1121, 1153, 2, 1120⟩,
    ⟨1163, 1215, 2, 1162⟩, ⟨1218, 1230, 2, 1217⟩, ⟨1231, 1231, 2, 1216⟩, ⟨1233, 1327, 2, 1232⟩,
    ⟨1377, 1414, 1, 1329⟩, ⟨1415, 1415, 2, 1333⟩, ⟨4304, 4346, 1, 7312⟩, ⟨4349, 4351, 1, 7357⟩,
    ⟨5112, 5117, 1, 5104⟩, ⟨7296, 7296, 2, 1042⟩, ⟨7297, 7297, 2, 1044⟩, ⟨7298, 7298, 2, 1054⟩,
    ⟨7299, 7300, 1, 1057⟩, ⟨7301, 7301, 2, 1058⟩, ⟨7302, 7302, 2, 1066⟩, ⟨7303, 7303, 2, 1122⟩,
    ⟨7304, 7304, 2, 42570⟩, ⟨7306, 7306, 2, 7305⟩, ⟨7545, 7545, 2, 42877⟩, ⟨7549, 7549, 2, 11363⟩,
    ⟨7566, 7566, 2, 42950⟩, ⟨7681, 7829, 2, 7680⟩, ⟨7830, 7830, 2, 72⟩, ⟨7831, 7831, 2, 84⟩,
    ⟨7832, 7832, 2, 87⟩, ⟨7833, 7833, 2, 89⟩, ⟨7834, 7834, 2, 65⟩, ⟨7835, 7835, 2, 7776⟩,
    ⟨7841, 7935, 2, 7840⟩, ⟨7936, 7943, 1, 7944⟩, ⟨7952, 7957, 1, 7960⟩, ⟨7968, 7975, 1, 7976⟩,
    ⟨7984, 7991, 1, 7992⟩, ⟨8000, 8005, 1, 8008⟩, ⟨8016, 8016, 2, 933⟩, ⟨8017, 8017, 2, 8025⟩,
    ⟨8018, 8018, 2, 933⟩, ⟨8019, 8019, 2, 8027⟩, ⟨8020, 8020, 2, 933⟩, ⟨8021, 8021, 2, 8029⟩,
    ⟨8022, 8022, 2, 933⟩, ⟨8023, 8023, 2, 8031⟩, ⟨8032, 8039, 1, 8040⟩, ⟨8048, 8049, 1, 8122⟩,
    ⟨8050, 8053, 1, 8136⟩, ⟨8054, 8055, 1, 8154⟩, ⟨8056, 8057, 1, 8184⟩, ⟨8058, 8059, 1, 8170⟩,
    ⟨8060, 8061, 1, 8186⟩, ⟨8064, 8071, 1, 7944⟩, ⟨8072, 8079, 1, 7944⟩, ⟨8080, 8087, 1, 7976⟩,
    ⟨8088, 8095, 1, 7976⟩, ⟨8096, 8103, 1, 8040⟩, ⟨8104, 8111, 1, 8040⟩, ⟨8112, 8114, 1, 8120⟩,
    ⟨8115, 8115, 2, 913⟩, ⟨8116, 8116, 2, 902⟩, ⟨8118, 8118, 2, 913⟩, ⟨8119, 8119, 2, 913⟩,
    ⟨8124, 8124, 2, 913⟩, ⟨8126, 8126, 2, 921⟩, ⟨8130, 8130, 2, 8138⟩, ⟨8131, 8131, 2, 919⟩,
    ⟨8132, 8132, 2, 905⟩, ⟨8134, 8134, 2, 919⟩, ⟨8135, 8135, 2, 919⟩, ⟨8140, 8140, 2, 919⟩,
    ⟨8144, 8145, 1, 8152⟩, ⟨8146, 8146, 2, 921⟩, ⟨8147, 8147, 2, 921⟩, ⟨8150, 8150, 2, 921⟩,
    ⟨8151, 8151, 2, 921⟩, ⟨8160, 8161, 1, 8168⟩, ⟨8162, 8162, 2, 933⟩, ⟨8163, 8163, 2, 933⟩,
    ⟨8164, 8164, 2, 929⟩, ⟨8165, 8165, 2, 8172⟩, ⟨8166, 8166, 2, 933⟩, ⟨8167, 8167, 2, 933⟩,
    ⟨8178, 8178, 2, 8186⟩, ⟨8179, 8179, 2, 937⟩, ⟨8180, 8180, 2, 911⟩, ⟨8182, 8182, 2, 937⟩,
    ⟨8183, 8183, 2, 937⟩, ⟨8188, 8188, 2, 937⟩, ⟨8526, 8526, 2, 8498⟩, ⟨8560, 8575, 1, 8544⟩,
    ⟨8580, 8580, 2, 8579⟩, ⟨9424, 9449, 1, 9398⟩, ⟨11312, 11359, 1, 11264⟩,
    ⟨11361, 11361, 2, 11360⟩, ⟨11365, 11365, 2, 570⟩, ⟨11366, 11366, 2, 574⟩,
    ⟨11368, 11372, 2, 11367⟩, ⟨11379, 11379, 2, 11378⟩, ⟨11382, 11382, 2, 11381⟩,
    ⟨11393, 11491, 2, 11392⟩, ⟨11500, 11502, 2, 11499⟩, ⟨11507, 11507, 2, 11506⟩,
    ⟨11520, 11557, 1, 4256⟩, ⟨11559, 11559, 2, 4295⟩, ⟨11565, 11565, 2, 4301⟩,
    ⟨42561, 42605, 2, 42560⟩, ⟨42625, 42651, 2, 42624⟩, ⟨42787, 42799, 2, 42786⟩,
    ⟨42803, 42863, 2, 42802⟩, ⟨42874, 42876, 2, 42873⟩, ⟨42879, 42887, 2, 42878⟩,
    ⟨42892, 42892, 2, 42891⟩, ⟨42897, 42899, 2, 42896⟩, ⟨42900, 42900, 2, 42948⟩,
    ⟨42903, 42921, 2, 42902⟩, ⟨42933, 42947, 2, 42932⟩, ⟨42952, 42954, 2, 42951⟩,
    ⟨42957, 42957, 2, 42956⟩, ⟨42961, 42961, 2, 42960⟩, ⟨42967, 42971, 2, 42966⟩,
    ⟨42998, 42998, 2, 42997⟩, ⟨43859, 43859, 2, 42931⟩, ⟨43888, 43967, 1, 5024⟩,
    ⟨64256, 64256, 2, 70⟩, ⟨64257, 64257, 2, 70⟩, ⟨64258, 64258, 2, 70⟩, ⟨64259, 64259, 2, 70⟩,
    ⟨64260, 64260, 2, 70⟩, ⟨64261, 64261, 2, 83⟩, ⟨64262, 64262, 2, 83⟩, ⟨64275, 64275, 2, 1348⟩,
    ⟨64276, 64276, 2, 1348⟩, ⟨64277, 64277, 2, 1348⟩, ⟨64278, 64278, 2, 1358⟩,
    ⟨64279, 64279, 2, 1348⟩, ⟨65345, 65370, 1, 65313⟩, ⟨66600, 66639, 1, 66560⟩,
    ⟨66776, 66811, 1, 66736⟩, ⟨66967, 66977, 1, 66928⟩, ⟨66979, 66993, 1, 66940⟩,
    ⟨66995, 67001, 1, 66956⟩, ⟨67003, 67004, 1, 66964⟩, ⟨68800, 68850, 1, 68736⟩,
    ⟨68976, 68997, 1, 68944⟩, ⟨71872, 71903, 1, 71840⟩, ⟨93792, 93823, 1, 93760⟩,
    ⟨125218, 125251, 1, 125184⟩
  ]

def capitalSigma : Char := '\u03A3'

def dottedI : Char := '\u0130'

def lowerChar (c : Char) : Char := Char.ofNat (image lowerRows c.toNat)

def toLowercase (c : Char) : List Char :=
  if c = dottedI then ['i', '\u0307'] else [lowerChar c]

/-- `to_uppercase().next()`. -/
def upperFirst (c : Char) : Char := Char.ofNat (image upperRows c.toNat)

section text

variable (cased caseIgnorable : Char → Bool)

def caseIgnorableThenCased (text : List Char) : Bool :=
  (text.dropWhile caseIgnorable).head?.any cased

/-- `map_uppercase_sigma`, between what is before, from its end, and what
comes behind. -/
def mapUppercaseSigma (before after : List Char) : Char :=
  if caseIgnorableThenCased cased caseIgnorable before &&
      !caseIgnorableThenCased cased caseIgnorable after then '\u03C2'
  else '\u03C3'

def lowerText (before : List Char) : List Char → List Char
  | [] => []
  | c :: after =>
      (if c = capitalSigma then [mapUppercaseSigma cased caseIgnorable before after]
        else toLowercase c) ++ lowerText (c :: before) after

/-- `str::to_lowercase`. -/
def strToLowercase (text : List Char) : List Char := lowerText cased caseIgnorable [] text

end text

end CharCase

end Yaldabaoth
